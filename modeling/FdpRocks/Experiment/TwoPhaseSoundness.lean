import FdpRocks.Experiment.PreflightSoundness
import FdpRocks.Experiment.Sweep

/-! # What a mode of an experiment does to the machine

Which commands are in order after which history, and that all commands of
`run_two_phase.sh` and of `run_mode` are.

* `Orderly` — erasures are guarded, phases follow one another on one database,
  thresholds come from the workload's own baseline, one sampler runs at most.
* `runTwoPhase_ensures`, `runMode_ensures` — what the scripts ensure, whatever
  their commands answer.
-/

namespace FdpRocks.Experiment

open FdpRocks.Library.Pattern FdpRocks.Library.Programs FdpRocks.Library.Transition Script

/-! ## Single commands -/

section Commands

variable {allowed : History → Command → Prop} {before : History}

theorem ensures_status {tool : Tool} {ending : Program.Ending Command.Answer Failure Bool} :
    (status tool).Ensures allowed ending before ↔ allowed before (.run tool) ∧
      ∀ ok : Bool, ending.returns ok (before ++ [⟨.run tool, ok⟩]) := Iff.rfl

theorem ensures_perform {tool : Tool} {ending : Program.Ending Command.Answer Failure Unit} :
    (perform tool).Ensures allowed ending before ↔ allowed before (.run tool) ∧
      ending.returns () (before ++ [⟨.run tool, true⟩]) ∧
      ending.exits .command (before ++ [⟨.run tool, false⟩]) := by
  rw [perform, Program.ensures_bind, ensures_status, Bool.forall_bool]
  exact and_congr_right fun _ => and_comm

theorem ensures_demand {condition : Bool} {failure : Failure}
    {ending : Program.Ending Command.Answer Failure Unit} :
    (demand condition failure).Ensures allowed ending before ↔
      (condition = true → ending.returns () before) ∧
      (condition = false → ending.exits failure before) := by
  cases condition <;> simp [demand]

theorem ensures_expand {env : Variables} {name : Variable}
    {ending : Program.Ending Command.Answer Failure (List Char)} :
    (expand env name).Ensures allowed ending before ↔
      (∀ value, env name = some value → ending.returns value before) ∧
      (env name = none → ending.exits (.unbound name) before) := by
  unfold expand
  cases env name <;> simp

theorem ensures_launch {call : Call}
    {ending : Program.Ending Command.Answer Failure (Bool × List Char)} :
    (launch call).Ensures allowed ending before ↔ allowed before (.benchmark call) ∧
      ∀ answer : Bool × List Char, ending.returns answer (before ++ [⟨.benchmark call, answer⟩]) :=
  Iff.rfl

theorem ensures_substitute {path : List Char}
    {ending : Program.Ending Command.Answer Failure (List Char)} :
    (substitute path).Ensures allowed ending before ↔ allowed before (.readFile path) ∧
      (∀ content : List Char, ending.returns (content.rdropWhile (· = '\n'))
        (before ++ [⟨.readFile path, some content⟩])) ∧
      ending.exits .command (before ++ [⟨.readFile path, none⟩]) := by
  constructor
  · intro ensures
    exact ⟨ensures.1, fun content => ensures.2 (some content), ensures.2 none⟩
  · intro parts
    obtain ⟨permitted, found, missing⟩ := parts
    refine ⟨permitted, ?_⟩
    intro answer
    cases answer with
    | none => exact missing
    | some content => exact found content

theorem ensures_guard {env : Variables} {ending : Program.Ending Command.Answer Failure Cleared} :
    (Script.guard env).Ensures allowed ending before ↔ allowed before .inspect ∧
      ∀ host : Host,
        (∀ cleared, preflight host env.guard = .ok cleared →
          ending.returns cleared (before ++ [⟨.inspect, host⟩])) ∧
        (∀ refusal, preflight host env.guard = .error refusal →
          ending.exits (.preflight refusal) (before ++ [⟨.inspect, host⟩])) := by
  apply and_congr_right
  intro _
  apply forall_congr'
  intro (host : Host)
  cases outcome : preflight host env.guard <;> simp [outcome]

theorem ensures_runPhase {root : List Char} {env : Variables} {mode : Mode} {phase : Phase}
    {count distribution keyFile dbDir : List Char}
    {ending : Program.Ending Command.Answer Failure Unit} (bound : env .fdpDbDir = some dbDir)
    (runs : ∀ keyOrderDir call,
      call = phaseCall root env mode phase dbDir keyOrderDir count distribution keyFile →
      allowed before (.benchmark call) ∧ ∀ (ok : Bool) (log : List Char),
        (ok = true → logChecks phase.text count log = .ok () →
          ending.returns () (before ++ [⟨.benchmark call, (ok, log)⟩])) ∧
        ∀ failure, ending.exits failure (before ++ [⟨.benchmark call, (ok, log)⟩]))
    (unbound : ending.exits (.unbound .keyDatasetDir) before) :
    (runPhase root env mode phase count distribution keyFile).Ensures allowed ending before := by
  rw [runPhase, Program.ensures_bind, ensures_expand]
  refine ⟨?_, by simp [bound]⟩
  intro value same
  obtain rfl : dbDir = value := Option.some.inj (bound.symm.trans same)
  dsimp only
  rw [Program.ensures_bind, ensures_expand]
  refine ⟨?_, fun _ => unbound⟩
  intro keyOrderDir _
  dsimp only
  rw [Program.ensures_bind, ensures_launch]
  obtain ⟨permitted, later⟩ := runs keyOrderDir _ rfl
  refine ⟨permitted, ?_⟩
  intro answer
  obtain ⟨ok, log⟩ := answer
  obtain ⟨accepted, failed⟩ := later ok log
  dsimp only
  rw [Program.ensures_bind, ensures_demand]
  refine ⟨?_, fun _ => failed .command⟩
  intro succeeded
  cases checks : logChecks phase.text count log with
  | ok done => exact accepted succeeded checks
  | error failure => exact failed (.phase failure)

end Commands

/-! ## Order -/

/-- The samplers that are running; `kill` ends the last one. -/
def samplers (history : History) : List (List Char) :=
  history.foldl (fun running deed =>
    match deed.1 with
    | .run (.startSampler log) => log :: running
    | .run .stopSampler => running.tail
    | _ => running) []

/-- Right before, the guard let the directory pass; only the directory of the
    results was made since. -/
def Guarded (env : Variables) (before : History) (directory : List Char) : Prop :=
  ∃ earlier host cleared output,
    before = earlier ++ [⟨.inspect, host⟩, ⟨.run (.makeDirectory output), true⟩] ∧
    preflight host env.guard = .ok cleared ∧ env .confirmEraseDb = some "YES".toList ∧
    env .fdpDbDir = some directory ∧ directory ≠ []

/-- A benchmark that ended well, with a log that `run_phase` accepts. -/
def Accepted (call : Call) (answer : Bool × List Char) : Prop :=
  answer.1 = true ∧ logChecks call.phase.text call.num answer.2 = .ok ()

/-- The first phase starts right after the erasure, the second one right after
    the first, from whose count of keys it goes on. -/
def InPhase (before : History) (call : Call) : Prop :=
  match call.phase with
  | .phase1 =>
    call.env .baseKeys = some ['0'] ∧
      ∃ earlier, before = earlier ++ [⟨.run (.erase call.dbPath), true⟩]
  | .phase2 =>
    ∃ earlier first answer,
      before = earlier ++ [⟨.run (.erase call.dbPath), true⟩, ⟨.benchmark first, answer⟩] ∧
      first.phase = .phase1 ∧ first.mode = call.mode ∧ first.dbPath = call.dbPath ∧
      Accepted first answer ∧ call.env .baseKeys = some first.num

/-- Both phases of a mode were accepted, and RocksDB's log was put beside theirs. -/
def Completed (directory : List Char) (mode : Mode) (keyFile : List Char) (history : History) :
    Prop :=
  ∃ earlier later first firstAnswer second secondAnswer dbDir,
    history = earlier ++ [⟨.run (.erase dbDir), true⟩, ⟨.benchmark first, firstAnswer⟩,
      ⟨.benchmark second, secondAnswer⟩, ⟨.run (.isReadable (file dbDir "LOG".toList)), true⟩,
      ⟨.run (.copy (file dbDir "LOG".toList) (file directory "rocksdb.LOG".toList)), true⟩] ++ later ∧
    (first.phase = .phase1 ∧ first.mode = mode ∧ Accepted first firstAnswer) ∧
    (second.phase = .phase2 ∧ second.mode = mode ∧ Accepted second secondAnswer) ∧
    second.keyFilePath = keyFile

/-- The mode was completed by the commands given since. -/
def CompletedSince (before : History) (directory : List Char) (mode : Mode) (keyFile : List Char)
    (after : History) : Prop :=
  ∃ deeds, after = before ++ deeds ∧ Completed directory mode keyFile deeds

/-- The thresholds were read from the file made of the log of the workload's baseline. -/
def FromBaseline (outputRoot workload keyFile thresholds : List Char) (before : History) : Prop :=
  ∃ earlier later content,
    before = earlier ++ [⟨.run (.extractThresholds
        (file (modeDir outputRoot workload .baseline) "rocksdb.LOG".toList)
        (thresholdFile outputRoot workload)), true⟩,
      ⟨.readFile (thresholdFile outputRoot workload), some content⟩] ++ later ∧
    thresholds = content.rdropWhile (· = '\n') ∧
    Completed (modeDir outputRoot workload .baseline) .baseline keyFile earlier

/-- What a script is started with. -/
structure Plan where
  env : Variables
  outputRoot : List Char
  workloads : List (List Char)
  /-- The key file and the distribution of the second phase. -/
  source : List Char → Option (List Char × List Char)
  /-- The modes that run beside a sampler. -/
  sampled : Mode → Bool
  /-- Thresholds that were there from the start. -/
  given : Option (List Char)
  /-- The text that names the workloads. -/
  selected : List Char

/-- A call for one workload of the plan. -/
structure CallFor (plan : Plan) (before : History) (call : Call)
    (workload keyFile distribution : List Char) : Prop where
  log : call.log = file (modeDir plan.outputRoot workload call.mode)
    (call.mode.text ++ ('_' :: call.phase.text) ++ ".log".toList)
  keys : match call.phase with
    | .phase1 => call.keyFilePath = plan.env.orWord .phase1KeyFile [] ∧
        call.keyDistribution = "uniform".toList ∧ call.num = phase1Keys plan.env
    | .phase2 => call.keyFilePath = keyFile ∧ call.keyDistribution = distribution ∧
        call.num = phase2Keys plan.env
  thresholds : call.mode.needsThresholds = true →
    ∃ thresholds, call.env .tooFarThresholdsSec = some thresholds ∧ thresholds ≠ [] ∧
      (plan.given = some thresholds ∨
        FromBaseline plan.outputRoot workload keyFile thresholds before)
  sampled : samplers before =
    if plan.sampled call.mode then [statsLog (modeDir plan.outputRoot workload call.mode)] else []

/-- The experiments were completed one after the other, by parts of the history that do
    not overlap. -/
inductive InOrder (plan : Plan) : List (List Char × Mode) → History → Prop where
  | start (history : History) : InOrder plan [] history
  | next {experiments : List (List Char × Mode)} {history deeds : History} {mode : Mode}
      {workload keyFile distribution : List Char} (earlier : InOrder plan experiments history)
      (source : plan.source workload = some (keyFile, distribution))
      (completed : Completed (modeDir plan.outputRoot workload mode) mode keyFile deeds) :
      InOrder plan (experiments ++ [(workload, mode)]) (history ++ deeds)

/-- The modes that a sweep runs of each workload. -/
def sweptModes : List Mode := [.baseline, .model, .nofdp]

/-- All modes of a workload are complete. -/
def Swept (plan : Plan) (before : History) (workload : List Char) : Prop :=
  ∀ mode ∈ sweptModes, ∃ keyFile distribution, plan.source workload = some (keyFile, distribution) ∧
    Completed (modeDir plan.outputRoot workload mode) mode keyFile before

def Orderly (plan : Plan) (before : History) : Command → Prop
  | .run (.erase directory) => Guarded plan.env before directory
  | .run (.startSampler _) => samplers before = []
  | .run .stopSampler => ∃ log, samplers before = [log]
  | .run (.sampleOnce _) => samplers before = []
  | .run (.resultsToWaCsv directory _ _ _) =>
    '\n' ∉ plan.selected → ∃ workload ∈ plan.workloads,
      directory = file plan.outputRoot workload ∧ Swept plan before workload
  | .benchmark call =>
    InPhase before call ∧ ∃ workload ∈ plan.workloads, ∃ keyFile distribution,
      plan.source workload = some (keyFile, distribution) ∧
      CallFor plan before call workload keyFile distribution
  | _ => True

/-! ## Histories -/

/-- Neither starts a sampler nor ends one. -/
def Calm : Command → Prop
  | .run (.startSampler _) | .run .stopSampler => False
  | _ => True

/-- The same history, some calm commands later. -/
inductive Later (before : History) : History → Prop where
  | now : Later before before
  | then {after : History} (later : Later before after) (deed : Deed Command.Answer)
      (calm : Calm deed.1) : Later before (after ++ [deed])

theorem Later.split {before after : History} (later : Later before after) :
    ∃ deeds, after = before ++ deeds := by
  induction later with
  | now => exact ⟨[], (List.append_nil before).symm⟩
  | @«then» after _ deed _ inductionHypothesis =>
    obtain ⟨deeds, rfl⟩ := inductionHypothesis
    exact ⟨deeds ++ [deed], List.append_assoc _ _ _⟩

theorem samplers_calm {before : History} {deed : Deed Command.Answer} (calm : Calm deed.1) :
    samplers (before ++ [deed]) = samplers before := by
  obtain ⟨command, answer⟩ := deed
  rw [samplers, List.foldl_append, ← samplers, List.foldl_cons, List.foldl_nil]
  cases command with
  | run tool => cases tool <;> first | rfl | exact calm.elim
  | inspect | benchmark | readFile => rfl

theorem Later.samplers {before after : History} (later : Later before after) :
    samplers after = samplers before := by
  induction later with
  | now => rfl
  | «then» _ _ calm inductionHypothesis => rw [samplers_calm calm, inductionHypothesis]

theorem Completed.append {directory keyFile : List Char} {mode : Mode} {history : History}
    (completed : Completed directory mode keyFile history) (more : History) :
    Completed directory mode keyFile (history ++ more) := by
  obtain ⟨earlier, later, first, firstAnswer, second, secondAnswer, dbDir, rfl, parts⟩ := completed
  exact ⟨earlier, later ++ more, first, firstAnswer, second, secondAnswer, dbDir,
    List.append_assoc _ _ _, parts⟩

theorem Completed.prepend {directory keyFile : List Char} {mode : Mode} {history : History}
    (completed : Completed directory mode keyFile history) (before : History) :
    Completed directory mode keyFile (before ++ history) := by
  obtain ⟨earlier, later, first, firstAnswer, second, secondAnswer, dbDir, rfl, parts⟩ := completed
  refine ⟨before ++ earlier, later, first, firstAnswer, second, secondAnswer, dbDir, ?_, parts⟩
  simp only [List.append_assoc]

namespace CompletedSince

variable {directory keyFile : List Char} {mode : Mode} {start before after : History}

theorem onward (since : CompletedSince before directory mode keyFile after) : before <+: after := by
  obtain ⟨deeds, rfl, _⟩ := since
  exact List.prefix_append _ _

theorem completed (since : CompletedSince before directory mode keyFile after) :
    Completed directory mode keyFile after := by
  obtain ⟨deeds, rfl, completed⟩ := since
  exact completed.prepend before

theorem append (since : CompletedSince before directory mode keyFile after) (more : History) :
    CompletedSince before directory mode keyFile (after ++ more) := by
  obtain ⟨deeds, rfl, completed⟩ := since
  exact ⟨deeds ++ more, List.append_assoc _ _ _, completed.append more⟩

theorem from_earlier (since : CompletedSince before directory mode keyFile after)
    (earlier : start <+: before) : CompletedSince start directory mode keyFile after := by
  obtain ⟨between, rfl⟩ := earlier
  obtain ⟨deeds, rfl, completed⟩ := since
  exact ⟨between ++ deeds, List.append_assoc _ _ _, completed.prepend between⟩

end CompletedSince

namespace InOrder

variable {plan : Plan} {experiments : List (List Char × Mode)} {history after : History}

theorem append (inOrder : InOrder plan experiments history) (more : History) :
    InOrder plan experiments (history ++ more) := by
  cases inOrder with
  | start => exact .start _
  | next earlier source completed =>
    rw [List.append_assoc]
    exact earlier.next source (completed.append more)

theorem mono (inOrder : InOrder plan experiments history) (onward : history <+: after) :
    InOrder plan experiments after := by
  obtain ⟨more, rfl⟩ := onward
  exact inOrder.append more

theorem since {workload keyFile distribution : List Char} {mode : Mode}
    (inOrder : InOrder plan experiments history)
    (source : plan.source workload = some (keyFile, distribution))
    (since : CompletedSince history (modeDir plan.outputRoot workload mode) mode keyFile after) :
    InOrder plan (experiments ++ [(workload, mode)]) after := by
  obtain ⟨deeds, rfl, completed⟩ := since
  exact inOrder.next source completed

theorem completed (inOrder : InOrder plan experiments history) {workload : List Char} {mode : Mode}
    (member : (workload, mode) ∈ experiments) :
    ∃ keyFile distribution, plan.source workload = some (keyFile, distribution) ∧
      Completed (modeDir plan.outputRoot workload mode) mode keyFile history := by
  induction inOrder with
  | start => cases member
  | next _ source here inductionHypothesis =>
    cases List.mem_append.mp member with
    | inl before =>
      obtain ⟨keyFile, distribution, known, completed⟩ := inductionHypothesis before
      exact ⟨keyFile, distribution, known, completed.append _⟩
    | inr last =>
      cases List.mem_singleton.mp last
      exact ⟨_, _, source, here.prepend _⟩

end InOrder

theorem FromBaseline.append {outputRoot workload keyFile thresholds : List Char}
    {history : History} (known : FromBaseline outputRoot workload keyFile thresholds history)
    (more : History) : FromBaseline outputRoot workload keyFile thresholds (history ++ more) := by
  obtain ⟨earlier, later, content, rfl, parts⟩ := known
  exact ⟨earlier, later ++ more, content, List.append_assoc _ _ _, parts⟩

/-! ## `run_two_phase.sh` -/

/-- Variables that scripts set for other scripts. -/
def handedDown : List Variable :=
  [.outputDir, .phase2KeyFile, .phase2Distribution, .tooFarThresholdsSec]

/-- Everything that the scripts do not hand down is as it was at the start. -/
def Inherits (plan : Plan) (env : Variables) : Prop :=
  ∀ name ∉ handedDown, env name = plan.env name

/-- The variables are those for a mode of a workload. -/
structure Prepared (plan : Plan) (env : Variables) (mode : Mode)
    (workload keyFile distribution : List Char) (before : History) : Prop where
  inherits : Inherits plan env
  keys : env.orWord .phase2KeyFile [] = keyFile
  distributed : env.orWord .phase2Distribution "uniform".toList = distribution
  member : workload ∈ plan.workloads
  source : plan.source workload = some (keyFile, distribution)
  thresholds : mode.needsThresholds = true →
    plan.given = some (env.orWord .tooFarThresholdsSec []) ∨
      FromBaseline plan.outputRoot workload keyFile (env.orWord .tooFarThresholdsSec []) before

/-- What holds when `run_two_phase.sh` starts. -/
structure Ready (plan : Plan) (env : Variables) (mode : Mode)
    (workload keyFile distribution : List Char) (before : History) : Prop
    extends Prepared plan env mode workload keyFile distribution before where
  directory : env .outputDir = some (modeDir plan.outputRoot workload mode)
  sampled : samplers before =
    if plan.sampled mode then [statsLog (modeDir plan.outputRoot workload mode)] else []

theorem Inherits.guard {plan : Plan} {env : Variables} (inherits : Inherits plan env) :
    env.guard = plan.env.guard := by
  unfold Variables.guard
  congr 1 <;> exact inherits _ (by decide)

theorem orWord_file {env : Variables} {name : Variable} {directory last word : List Char}
    (same : env name = some (file directory last)) : env.orWord name word = file directory last := by
  simp [Variables.orWord, orElse, same, file]

section TwoPhase

variable {plan : Plan} {root : List Char} {env : Variables} {mode : Mode}
  {workload keyFile distribution : List Char} {before : History}

theorem Ready.resultsDir (ready : Ready plan env mode workload keyFile distribution before) :
    outputDir root env = modeDir plan.outputRoot workload mode := orWord_file ready.directory

theorem Ready.unchanged (ready : Ready plan env mode workload keyFile distribution before)
    {name : Variable} (own : name ∉ handedDown) (word : List Char) :
    env.orWord name word = plan.env.orWord name word := by
  rw [Variables.orWord, ready.inherits name own, ← Variables.orWord]

/-- What `run_phase` starts for a mode that is ready is a call for its workload, as
    long as only calm commands were given since. -/
theorem Ready.callFor (ready : Ready plan env mode workload keyFile distribution before)
    (someThresholds : mode.needsThresholds = true → env.orWord .tooFarThresholdsSec [] ≠ [])
    {history : History} (later : Later before history) {phase : Phase}
    {dbDir keyOrderDir count distributed keys : List Char}
    (fits : match phase with
      | .phase1 => keys = plan.env.orWord .phase1KeyFile [] ∧ distributed = "uniform".toList ∧
          count = phase1Keys plan.env
      | .phase2 => keys = keyFile ∧ distributed = distribution ∧ count = phase2Keys plan.env) :
    CallFor plan history (phaseCall root env mode phase dbDir keyOrderDir count distributed keys)
      workload keyFile distribution := by
  obtain ⟨deeds, split⟩ := later.split
  constructor
  · show file (outputDir root env) _ = _
    rw [ready.resultsDir]
    rfl
  · exact fits
  · intro needs
    refine ⟨env.orWord .tooFarThresholdsSec [], rfl, someThresholds needs, ?_⟩
    cases ready.thresholds needs with
    | inl given => exact .inl given
    | inr known =>
      right
      rw [split]
      exact known.append deeds
  · rw [later.samplers, ready.sampled]
    rfl

/-- The end of the script, behind the erasure. -/
theorem phases_ensures (ready : Ready plan env mode workload keyFile distribution before)
    (someThresholds : mode.needsThresholds = true → env.orWord .tooFarThresholdsSec [] ≠ [])
    {earlier : History} (later : Later before earlier) {dbDir : List Char}
    (bound : env .fdpDbDir = some dbDir) :
    Program.Ensures (Orderly plan)
      ⟨fun _ after => Later before after ∧
          CompletedSince before (modeDir plan.outputRoot workload mode) mode keyFile after,
        fun _ after => Later before after⟩
      (do
        runPhase root env mode .phase1 (phase1Keys env) "uniform".toList
          (env.orWord .phase1KeyFile [])
        runPhase root env mode .phase2 (phase2Keys env)
          (env.orWord .phase2Distribution "uniform".toList) (env.orWord .phase2KeyFile [])
        demand (← status (.isReadable (file dbDir "LOG".toList))) (.noRocksdbLog dbDir)
        perform (.copy (file dbDir "LOG".toList)
          (file (outputDir root env) "rocksdb.LOG".toList)))
      (earlier ++ [⟨.run (.erase dbDir), true⟩]) := by
  have erased : Later before (earlier ++ [⟨.run (.erase dbDir), true⟩]) := later.then _ trivial
  have place : outputDir root env = modeDir plan.outputRoot workload mode := ready.resultsDir
  rw [place, Program.ensures_bind]
  apply ensures_runPhase bound _ erased
  intro firstOrder first firstIs
  have loads : CallFor plan (earlier ++ [⟨.run (.erase dbDir), true⟩]) first workload keyFile
      distribution := by
    rw [firstIs]
    exact ready.callFor someThresholds erased
      ⟨ready.unchanged (by decide) _, rfl, ready.unchanged (by decide) _⟩
  refine ⟨⟨?_, workload, ready.member, _, _, ready.source, loads⟩, ?_⟩
  · rw [firstIs]
    exact ⟨rfl, earlier, rfl⟩
  intro firstOk firstLog
  have loaded := erased.then ⟨.benchmark first, (firstOk, firstLog)⟩ trivial
  refine ⟨?_, fun _ => loaded⟩
  intro firstEnded firstChecks
  dsimp only
  rw [Program.ensures_bind]
  -- nothing but the first call lies between the erasure and the second one
  apply ensures_runPhase bound _ loaded
  intro secondOrder second secondIs
  have churns : CallFor plan
      (earlier ++ [⟨.run (.erase dbDir), true⟩] ++ [⟨.benchmark first, (firstOk, firstLog)⟩]) second
      workload keyFile distribution := by
    rw [secondIs]
    exact ready.callFor someThresholds loaded
      ⟨ready.keys, ready.distributed, ready.unchanged (by decide) _⟩
  have accepted : Accepted first (firstOk, firstLog) := by
    rw [firstIs]
    exact ⟨firstEnded, firstChecks⟩
  refine ⟨⟨?_, workload, ready.member, _, _, ready.source, churns⟩, ?_⟩
  · rw [secondIs]
    refine ⟨earlier, first, _, List.append_assoc _ _ _, ?_, ?_, ?_, accepted, ?_⟩ <;> rw [firstIs] <;>
      rfl
  intro secondOk secondLog
  have written := loaded.then ⟨.benchmark second, (secondOk, secondLog)⟩ trivial
  refine ⟨?_, fun _ => written⟩
  intro secondEnded secondChecks
  have acceptedToo : Accepted second (secondOk, secondLog) := by
    rw [secondIs]
    exact ⟨secondEnded, secondChecks⟩
  simp only [Program.ensures_bind, ensures_status, ensures_demand, ensures_perform]
  refine ⟨trivial, ?_⟩
  intro readable
  have looked := written.then ⟨.run (.isReadable (file dbDir "LOG".toList)), readable⟩ trivial
  refine ⟨?_, fun _ => looked⟩
  rintro rfl
  refine ⟨trivial, ⟨looked.then _ trivial, ?_⟩, looked.then _ trivial⟩
  -- the two calls and the copy are what the mode needs, in the part since `before`
  obtain ⟨deeds, rfl⟩ := later.split
  refine ⟨_, by simp only [List.append_assoc]; rfl, deeds, [], first, _, second, _, dbDir, ?_,
    ⟨?_, ?_, accepted⟩, ⟨?_, ?_, acceptedToo⟩, ?_⟩
  · simp
  · rw [firstIs]
    rfl
  · rw [firstIs]
    rfl
  · rw [secondIs]
    rfl
  · rw [secondIs]
    rfl
  · rw [secondIs]
    exact ready.keys

theorem runTwoPhase_ensures (ready : Ready plan env mode workload keyFile distribution before) :
    (runTwoPhase root env mode).Ensures (Orderly plan)
      ⟨fun _ after => Later before after ∧
          CompletedSince before (modeDir plan.outputRoot workload mode) mode keyFile after,
        fun _ after => Later before after⟩ before := by
  rw [runTwoPhase, Program.ensures_bind, ensures_demand]
  refine ⟨?_, fun _ => .now⟩
  intro thresholds
  have someThresholds : mode.needsThresholds = true → env.orWord .tooFarThresholdsSec [] ≠ [] := by
    intro needs
    simpa [needs] using thresholds
  dsimp only
  -- the tests in front of the guard
  simp only [Program.ensures_bind, ensures_status, ensures_demand]
  refine ⟨trivial, fun built => ?_⟩
  have atStart : Later before before := .now
  have first := atStart.then ⟨.run (.isExecutable (benchmarkPath root env)), built⟩ trivial
  refine ⟨fun _ => ⟨trivial, fun found => ?_⟩, fun _ => first⟩
  have second := first.then ⟨.run (.isFile (env.orWord .phase1KeyFile [])), found⟩ trivial
  refine ⟨fun _ => ⟨trivial, fun foundToo => ?_⟩, fun _ => second⟩
  have third := second.then ⟨.run (.isFile (env.orWord .phase2KeyFile [])), foundToo⟩ trivial
  refine ⟨fun _ => ⟨fun confirmed => ?_, fun _ => third⟩, fun _ => third⟩
  rw [decide_eq_true_eq] at confirmed
  -- the guard and the erasure
  simp only [ensures_guard, ensures_perform, ensures_expand]
  refine ⟨trivial, fun host => ?_⟩
  have inspected := third.then ⟨.inspect, host⟩ trivial
  refine ⟨fun cleared passes => ?_, fun _ _ => inspected⟩
  have made := inspected.then ⟨.run (.makeDirectory (outputDir root env)), true⟩ trivial
  refine ⟨trivial, ⟨fun dbDir bound => ?_, fun _ => made⟩, inspected.then _ trivial⟩
  refine ⟨fun nonempty => ?_, fun _ => made⟩
  rw [decide_eq_true_eq] at nonempty
  refine ⟨⟨_, host, cleared, _, List.append_assoc _ _ _, ?_, ?_, ?_, nonempty⟩, ?_, made.then _ trivial⟩
  · rw [← ready.inherits.guard]
    exact passes
  · rw [← ready.inherits .confirmEraseDb (by decide)]
    exact confirmed
  · rw [← ready.inherits .fdpDbDir (by decide)]
    exact bound
  have rest := @phases_ensures plan root _ _ _ _ _ _ ready someThresholds _ made _ bound
  simpa only [Program.ensures_bind, ensures_status, ensures_demand, ensures_perform] using rest

/-! ## Modes -/

theorem Prepared.ready (prepared : Prepared plan env mode workload keyFile distribution before)
    (sampled : samplers before =
      if plan.sampled mode then [statsLog (modeDir plan.outputRoot workload mode)] else []) :
    Ready plan (env.assign .outputDir (modeDir plan.outputRoot workload mode)) mode workload keyFile
      distribution before := by
  have other : ∀ name ≠ Variable.outputDir,
      env.assign .outputDir (modeDir plan.outputRoot workload mode) name = env name :=
    fun name different => Function.update_of_ne different _ _
  have same : ∀ name ≠ Variable.outputDir, ∀ word,
      (env.assign .outputDir (modeDir plan.outputRoot workload mode)).orWord name word
        = env.orWord name word := by
    intro name different word
    rw [Variables.orWord, other name different, ← Variables.orWord]
  constructor
  · constructor
    · intro name own
      rw [other name (by rintro rfl; exact own (by decide))]
      exact prepared.inherits name own
    · rw [same _ (by decide)]
      exact prepared.keys
    · rw [same _ (by decide)]
      exact prepared.distributed
    · exact prepared.member
    · exact prepared.source
    · rw [same _ (by decide)]
      exact prepared.thresholds
  · exact Function.update_self _ _ _
  · exact sampled

theorem Prepared.append (prepared : Prepared plan env mode workload keyFile distribution before)
    (more : History) : Prepared plan env mode workload keyFile distribution (before ++ more) :=
  { prepared with thresholds := fun needs => (prepared.thresholds needs).imp_right fun known =>
      known.append more }

theorem Prepared.mono (prepared : Prepared plan env mode workload keyFile distribution before)
    {after : History} (onward : before <+: after) :
    Prepared plan env mode workload keyFile distribution after := by
  obtain ⟨more, rfl⟩ := onward
  exact prepared.append more

theorem tryTwoPhase_ensures
    (ready : Ready plan (env.assign .outputDir (modeDir plan.outputRoot workload mode)) mode workload
      keyFile distribution before) :
    (tryTwoPhase root env (modeDir plan.outputRoot workload mode) mode).Ensures (Orderly plan)
      ⟨fun ok after => Later before after ∧ (ok = true →
          CompletedSince before (modeDir plan.outputRoot workload mode) mode keyFile after),
        fun _ _ => False⟩ before := by
  rw [tryTwoPhase, Program.ensures_bind, Program.ensures_attempt]
  apply (runTwoPhase_ensures ready).mono
  · intro _ after finished
    exact ⟨finished.1, fun _ => finished.2⟩
  · intro _ after later
    exact ⟨later, fun impossible => by cases impossible⟩

theorem samplers_start (log : List Char) (answer : Bool) :
    samplers (before ++ [⟨.run (.startSampler log), answer⟩]) = log :: samplers before := by
  rw [samplers, List.foldl_append]
  rfl

theorem samplers_stop (answer : Bool) :
    samplers (before ++ [⟨.run .stopSampler, answer⟩]) = (samplers before).tail := by
  rw [samplers, List.foldl_append]
  rfl

theorem idle_then {deed : Deed Command.Answer} (idle : samplers before = []) (calm : Calm deed.1) :
    samplers (before ++ [deed]) = [] := (samplers_calm calm).trans idle

theorem runMode_ensures (prepared : Prepared plan env mode workload keyFile distribution before)
    (idle : samplers before = []) (sampled : plan.sampled mode = collects env) :
    (runMode root env plan.outputRoot workload mode).Ensures (Orderly plan)
      ⟨fun _ after => samplers after = [] ∧
          CompletedSince before (modeDir plan.outputRoot workload mode) mode keyFile after,
        fun _ after => samplers after = []⟩ before := by
  have made : ∀ answer : Bool, samplers (before ++
      [⟨.run (.makeDirectory (modeDir plan.outputRoot workload mode)), answer⟩]) = [] :=
    fun answer => idle_then idle trivial
  rw [runMode, Program.ensures_bind, ensures_perform]
  refine ⟨trivial, ?_, made false⟩
  have ready := prepared.append [⟨.run (.makeDirectory (modeDir plan.outputRoot workload mode)), true⟩]
  replace made := made true
  dsimp only
  generalize onward : before ++ [_] = history at made ready ⊢
  have starts : before <+: history := ⟨_, onward⟩
  by_cases collecting : collects env = true
  · rw [if_pos collecting]
    simp only [Program.ensures_bind, ensures_status, ensures_expand, ensures_perform, ensures_demand]
    refine ⟨made, fun started => ?_⟩
    -- The mode runs beside the sampler, which ends before the last sample.
    have running := @samplers_start history
      (statsLog (modeDir plan.outputRoot workload mode)) started
    rw [made] at running
    have beside := (ready.append _).ready (running.trans (by rw [sampled, collecting]; rfl))
    apply (tryTwoPhase_ensures beside).mono
    · intro ok after ran
      obtain ⟨later, completed⟩ := ran
      have alive := later.samplers.trans running
      refine ⟨⟨_, alive⟩, fun stopped => ?_⟩
      have ended : samplers (after ++ [⟨.run .stopSampler, stopped⟩]) = [] := by
        rw [samplers_stop, alive]
        rfl
      refine ⟨fun _ _ => ⟨ended, ?_, ?_⟩, fun _ => ended⟩
      · have sampledOnce : samplers (after ++ [⟨.run .stopSampler, stopped⟩] ++
            [⟨.run (.sampleOnce (statsLog (modeDir plan.outputRoot workload mode))), true⟩]) = [] :=
          idle_then ended trivial
        refine ⟨trivial, fun shown => ?_⟩
        have looked : samplers (after ++ [⟨.run .stopSampler, stopped⟩] ++
            [⟨.run (.sampleOnce (statsLog (modeDir plan.outputRoot workload mode))), true⟩] ++
            [⟨.run (.hasStats (statsLog (modeDir plan.outputRoot workload mode))), shown⟩]) = [] :=
          idle_then sampledOnce trivial
        refine ⟨fun _ => ⟨fun succeeded => ⟨looked, ?_⟩, fun _ => looked⟩, fun _ => looked⟩
        have since := (completed succeeded).from_earlier (starts.trans (List.prefix_append _ _))
        exact ((since.append _).append _).append _
      · exact idle_then ended trivial
    · exact fun _ _ impossible => impossible.elim
  · rw [if_neg collecting]
    simp only [Program.ensures_bind, ensures_demand]
    have alone := ready.ready (made.trans (by rw [sampled, if_neg collecting]))
    apply (tryTwoPhase_ensures alone).mono
    · intro ok after ran
      obtain ⟨later, completed⟩ := ran
      have still := later.samplers.trans made
      exact ⟨fun succeeded => ⟨still, (completed succeeded).from_earlier starts⟩, fun _ => still⟩
    · exact fun _ _ impossible => impossible.elim

end TwoPhase

end FdpRocks.Experiment
