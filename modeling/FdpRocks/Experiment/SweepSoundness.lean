import FdpRocks.Experiment.TwoPhaseSoundness

/-! # What the experiment scripts do to the machine

Whole runs of `run_figure6.sh` and `run_gear.sh`, with any environment and any
answers to their commands.

* `erasures_guarded`, `phases_in_order`, `thresholds_from_baseline`,
  `one_sampler` — what holds of every command at the moment it is given.
* `sweep_complete` — what a sweep that ends well has done.
-/

namespace FdpRocks.Experiment

open FdpRocks.Library.Pattern FdpRocks.Library.Programs FdpRocks.Library.Transition Script

/-! ## `run_figure6.sh` -/

section Figure6

variable {root : List Char} {env start : Variables}

def figure6Plan (root : List Char) (env : Variables) : Plan where
  env := env
  outputRoot := env.orWord .outputRoot (file root "results/figure6".toList)
  workloads := readFields (env.orWord .workloads "uniform,s0.5,s1.5,s3".toList)
  source workload := (lookUp workload).map fun entry =>
    (file (env.orWord .keyDatasetDir []) entry.1, entry.2)
  sampled _ := collects env
  given := none
  selected := env.orWord .workloads "uniform,s0.5,s1.5,s3".toList

/-- The experiments of a sweep, in their order. -/
def planned (workloads : List (List Char)) : List (List Char × Mode) :=
  workloads.flatMap fun workload => sweptModes.map fun mode => (workload, mode)

theorem planned_append (done : List (List Char)) (workload : List Char) :
    planned (done ++ [workload])
      = planned done ++ [(workload, .baseline)] ++ [(workload, .model)] ++ [(workload, .nofdp)] := by
  simp [planned, sweptModes]

/-- Between two turns of the loop, all workloads so far are complete. -/
structure Between (plan : Plan) (done : List (List Char)) (env : Variables) (history : History) :
    Prop where
  inherits : Inherits plan env
  idle : samplers history = []
  inOrder : InOrder plan (planned done) history

theorem InOrder.swept {plan : Plan} {workloads : List (List Char)} {history : History}
    (inOrder : InOrder plan (planned workloads) history) {workload : List Char}
    (member : workload ∈ workloads) : Swept plan history workload := fun _ swept =>
  inOrder.completed (List.mem_flatMap.mpr ⟨workload, member, List.mem_map_of_mem swept⟩)

theorem Inherits.assign {plan : Plan} (inherits : Inherits plan env) {name : Variable}
    (handed : name ∈ handedDown) (value : List Char) : Inherits plan (env.assign name value) := by
  intro other own
  have different : other ≠ name := fun same => own (same ▸ handed)
  rw [Variables.assign, Function.update_of_ne different]
  exact inherits other own

theorem Inherits.collects {plan : Plan} (inherits : Inherits plan env) :
    Experiment.collects env = Experiment.collects plan.env := by
  rw [Experiment.collects, Variables.orWord, inherits .collectFdpStats (by decide),
    ← Variables.orWord, ← Experiment.collects]

theorem lookUp_distribution {workload keyFile distribution : List Char}
    (found : lookUp workload = some (keyFile, distribution)) : distribution ≠ [] := by
  have entry : ∃ name, (name, keyFile, distribution) ∈ workloadTable := by
    obtain ⟨earlier, later, split, _⟩ := List.lookup_eq_some_iff.mp found
    exact ⟨workload, split ▸ List.mem_append_right _ List.mem_cons_self⟩
  obtain ⟨name, member⟩ := entry
  have all : ∀ entry ∈ workloadTable, entry.2.2 ≠ [] := by decide
  exact all _ member

/-- The variables that the loop exports for a workload. -/
def exported (env : Variables) (keyFile distribution : List Char) : Variables :=
  (env.assign .phase2KeyFile keyFile).assign .phase2Distribution distribution

theorem baselineThresholds_ensures {plan : Plan} {workload keyFile : List Char} {history : History}
    (idle : samplers history = [])
    (completed : Completed (modeDir plan.outputRoot workload .baseline) .baseline keyFile history) :
    (baselineThresholds plan.outputRoot workload).Ensures (Orderly plan)
      ⟨fun thresholds after => history <+: after ∧ samplers after = [] ∧
          FromBaseline plan.outputRoot workload keyFile thresholds after,
        fun _ after => samplers after = []⟩ history := by
  have extracted : ∀ ok : Bool, samplers (history ++ [⟨.run (.extractThresholds
      (file (modeDir plan.outputRoot workload .baseline) "rocksdb.LOG".toList)
      (thresholdFile plan.outputRoot workload)), ok⟩]) = [] :=
    fun ok => idle_then idle trivial
  have read : ∀ content, samplers (history ++ [⟨.run (.extractThresholds
      (file (modeDir plan.outputRoot workload .baseline) "rocksdb.LOG".toList)
      (thresholdFile plan.outputRoot workload)), true⟩] ++
      [⟨.readFile (thresholdFile plan.outputRoot workload), content⟩]) = [] :=
    fun content => idle_then (extracted true) trivial
  rw [baselineThresholds, Program.ensures_bind, ensures_perform]
  refine ⟨trivial, ?_, extracted false⟩
  dsimp only
  rw [ensures_substitute]
  refine ⟨trivial, fun content => ⟨?_, read _, ?_⟩, read _⟩
  · exact (List.prefix_append _ _).trans (List.prefix_append _ _)
  · exact ⟨history, [], content, by rw [List.append_nil, List.append_assoc]; rfl, rfl, completed⟩

theorem Prepared.thresholds_assigned {plan : Plan} {mode : Mode}
    {workload keyFile distribution thresholds : List Char} {history : History}
    (prepared : Prepared plan env mode workload keyFile distribution history) (next : Mode)
    (known : FromBaseline plan.outputRoot workload keyFile thresholds history) :
    Prepared plan (env.assign .tooFarThresholdsSec thresholds) next workload keyFile distribution
      history := by
  have set : (env.assign .tooFarThresholdsSec thresholds).orWord .tooFarThresholdsSec []
      = thresholds := by
    simp +contextual [Variables.orWord, Variables.assign, orElse]
  exact {
    inherits := prepared.inherits.assign (by decide) _
    keys := prepared.keys
    distributed := prepared.distributed
    member := prepared.member
    source := prepared.source
    thresholds := fun _ => .inr (set.symm ▸ known) }

/-- The modes behind the baseline. -/
theorem otherModes_ensures {plan : Plan} {workload keyFile distribution : List Char}
    {experiments : List (List Char × Mode)} {history : History} {returns : Variables → History → Prop}
    (prepared : ∀ mode, Prepared plan env mode workload keyFile distribution history)
    (idle : samplers history = []) (sampled : ∀ mode, plan.sampled mode = collects env)
    (inOrder : InOrder plan experiments history)
    (swept : ∀ after, samplers after = [] →
      InOrder plan (experiments ++ [(workload, .model)] ++ [(workload, .nofdp)]) after →
      returns env after) :
    Program.Ensures (Orderly plan) ⟨returns, fun _ after => samplers after = []⟩
      (do
        runMode root env plan.outputRoot workload .model
        runMode root env plan.outputRoot workload .nofdp
        pure env) history := by
  apply (runMode_ensures (prepared .model) idle (sampled .model)).bind
  · intro _ middle ran
    obtain ⟨stillIdle, model⟩ := ran
    apply (runMode_ensures ((prepared .nofdp).mono model.onward) stillIdle (sampled .nofdp)).bind
    · intro _ after ranToo
      obtain ⟨idleToo, nofdp⟩ := ranToo
      have source := (prepared .model).source
      exact swept after idleToo ((inOrder.since source model).since source nofdp)
    · exact fun _ _ ended => ended
  · exact fun _ _ ended => ended

theorem sweepWorkload_ensures {done later : List (List Char)} {workload : List Char}
    {history : History}
    (within : (figure6Plan root start).workloads = done ++ workload :: later)
    (between : Between (figure6Plan root start) done env history) :
    (sweepWorkload root (start.orWord .keyDatasetDir []) (figure6Plan root start).outputRoot env
      workload).Ensures (Orderly (figure6Plan root start))
      ⟨Between (figure6Plan root start) (done ++ [workload]), fun _ after => samplers after = []⟩
      history := by
  unfold sweepWorkload
  cases found : lookUp workload with
  | none => exact between.idle
  | some entry =>
    obtain ⟨keyFile, distribution⟩ := entry
    have inherits : Inherits (figure6Plan root start)
        (exported env (file (start.orWord .keyDatasetDir []) keyFile) distribution) :=
      (between.inherits.assign (by decide) _).assign (by decide) _
    have collecting : ∀ env', Inherits (figure6Plan root start) env' →
        ∀ mode, (figure6Plan root start).sampled mode = collects env' :=
      fun env' same _ => same.collects.symm
    have baseline : Prepared (figure6Plan root start)
        (exported env (file (start.orWord .keyDatasetDir []) keyFile) distribution) .baseline workload
        (file (start.orWord .keyDatasetDir []) keyFile) distribution history := {
      inherits := inherits
      keys := orWord_file rfl
      distributed := by
        simp [exported, Variables.orWord, Variables.assign, orElse, lookUp_distribution found]
      member := within ▸ List.mem_append_right _ List.mem_cons_self
      source := by simp [figure6Plan, found]
      thresholds := fun needs => by cases needs }
    dsimp only
    rw [Program.ensures_bind, ensures_status]
    refine ⟨trivial, fun present => ?_⟩
    have looked : samplers (history ++
        [⟨.run (.isFile (file (start.orWord .keyDatasetDir []) keyFile)), present⟩]) = [] :=
      idle_then between.idle trivial
    dsimp only
    rw [Program.ensures_bind, ensures_demand]
    refine ⟨fun _ => ?_, fun _ => looked⟩
    apply (runMode_ensures (baseline.append _) looked (collecting _ inherits _)).bind
    · intro _ first ran
      obtain ⟨idle, since⟩ := ran
      have inOrder := (between.inOrder.append _).since baseline.source since
      apply (baselineThresholds_ensures idle since.completed).bind
      · -- from here on the thresholds are in the environment
        intro thresholds second read
        obtain ⟨onward, idleToo, known⟩ := read
        have prepared := ((baseline.append _).mono since.onward).mono onward
        have handed := @Inherits.assign _ _ inherits .tooFarThresholdsSec (by decide) thresholds
        apply otherModes_ensures (fun mode => prepared.thresholds_assigned mode known) idleToo
          (fun mode => collecting _ handed mode) (inOrder.mono onward)
        intro after stillIdle three
        rw [← planned_append] at three
        exact ⟨handed, stillIdle, three⟩
      · exact fun _ _ ended => ended
    · exact fun _ _ ended => ended

/-- The pattern of the `case` finds what the loop went over, on one line. -/
theorem mem_readFields {text word : List Char} (oneLine : '\n' ∉ text) (plain : ',' ∉ word)
    (some : word ≠ []) (selected : selects text word = true) : word ∈ readFields text := by
  have whole : text.takeWhile (· ≠ '\n') = text := by
    rw [List.takeWhile_eq_self_iff]
    intro character member
    exact decide_eq_true fun newline => oneLine (newline ▸ member)
  have field : word ∈ text.splitOn ',' := by
    rw [← infix_fields_iff plain]
    exact contains_iff.mp selected
  rw [readFields, whole]
  split
  next ends =>
    -- The field that is left out is empty.
    obtain ⟨others, split⟩ := List.getLast?_eq_some_iff.mp ends
    rw [split, List.mem_append, List.mem_singleton] at field
    rw [split, List.dropLast_concat]
    exact field.resolve_right some
  next => exact field

/-! ### Figures -/

/-- All these commands went well, and nothing else was done. -/
def wentWell (tools : List Tool) : History := tools.map fun tool => ⟨.run tool, true⟩

theorem wentWell_append (tools others : List Tool) :
    wentWell (tools ++ others) = wentWell tools ++ wentWell others := List.map_append

/-- What `plotWorkload` does. -/
def curveTools (env : Variables) (outputRoot selected workload name : List Char) : List Tool :=
  if selects selected workload then
    [.resultsToWaCsv (file outputRoot workload) (phase1Keys env) (phase2Keys env)
        (file outputRoot (name ++ ".csv".toList)),
      .plot "wa".toList (file outputRoot (name ++ ".csv".toList)) (file outputRoot name)]
  else []

/-- The commands that make the figures, behind the sweep. -/
def figureTools (plan : Plan) : List Tool :=
  [.resultsToCsv plan.outputRoot plan.selected (file plan.outputRoot "figure6a.csv".toList),
    .plot "throughput".toList (file plan.outputRoot "figure6a.csv".toList)
      (file plan.outputRoot "figure6a".toList)] ++
  if collects plan.env then
    curveTools plan.env plan.outputRoot plan.selected "uniform".toList "figure6b".toList ++
      curveTools plan.env plan.outputRoot plan.selected "s3".toList "figure6c".toList
  else []

theorem plotWorkload_ensures {workload name : List Char} {history : History}
    (inherits : Inherits (figure6Plan root start) env)
    (plain : ',' ∉ workload) (some : workload ≠ []) (idle : samplers history = [])
    (swept : ∀ workload ∈ (figure6Plan root start).workloads,
      Swept (figure6Plan root start) history workload) :
    (plotWorkload env (figure6Plan root start).outputRoot (figure6Plan root start).selected workload
      name).Ensures (Orderly (figure6Plan root start))
      ⟨fun _ after => samplers after = [] ∧ after = history ++ wentWell (curveTools start
          (figure6Plan root start).outputRoot (figure6Plan root start).selected workload name),
        fun _ after => samplers after = []⟩ history := by
  have keys1 : phase1Keys env = phase1Keys start := by
    rw [phase1Keys, Variables.orWord, inherits .phase1Keys (by decide)]
    rfl
  have keys2 : phase2Keys env = phase2Keys start := by
    rw [phase2Keys, Variables.orWord, inherits .phase2Keys (by decide)]
    rfl
  rw [plotWorkload, curveTools, keys1, keys2]
  split
  next selected =>
    dsimp only
    rw [Program.ensures_bind, ensures_perform]
    refine ⟨?_, ?_, idle_then idle trivial⟩
    · intro oneLine
      have member := mem_readFields oneLine plain some selected
      exact ⟨workload, member, rfl, swept workload member⟩
    · dsimp only
      rw [ensures_perform]
      exact ⟨trivial, ⟨idle_then (idle_then idle trivial) trivial, List.append_assoc _ _ _⟩,
        idle_then (idle_then idle trivial) trivial⟩
  next => exact ⟨idle, (List.append_nil history).symm⟩

/-- All experiments are complete, in their order, and no sampler is left. -/
structure Finished (plan : Plan) (history : History) : Prop where
  idle : samplers history = []
  inOrder : InOrder plan (planned plan.workloads) history

theorem Finished.then {plan : Plan} {history : History} {deed : Deed Command.Answer}
    (finished : Finished plan history) (calm : Calm deed.1) : Finished plan (history ++ [deed]) :=
  ⟨idle_then finished.idle calm, finished.inOrder.append _⟩

/-- The curves at the end of the script. -/
theorem plots_ensures {history : History} (inherits : Inherits (figure6Plan root start) env)
    (finished : Finished (figure6Plan root start) history) :
    Program.Ensures (Orderly (figure6Plan root start))
      ⟨fun _ after => samplers after = [] ∧ after = history ++ wentWell
          (curveTools start (figure6Plan root start).outputRoot (figure6Plan root start).selected
              "uniform".toList "figure6b".toList ++
            curveTools start (figure6Plan root start).outputRoot (figure6Plan root start).selected
              "s3".toList "figure6c".toList),
        fun _ after => samplers after = []⟩
      (do
        plotWorkload env (figure6Plan root start).outputRoot (figure6Plan root start).selected
          "uniform".toList "figure6b".toList
        plotWorkload env (figure6Plan root start).outputRoot (figure6Plan root start).selected
          "s3".toList "figure6c".toList) history := by
  apply (plotWorkload_ensures inherits (by decide) (by decide) finished.idle
    fun _ => finished.inOrder.swept).bind
  · rintro _ _ ⟨idle, rfl⟩
    apply (plotWorkload_ensures inherits (by decide) (by decide) idle
      fun _ => (finished.inOrder.append _).swept).mono
    · rintro _ _ ⟨stillIdle, rfl⟩
      refine ⟨stillIdle, ?_⟩
      rw [wentWell_append, List.append_assoc]
    · exact fun _ _ ended => ended
  · exact fun _ _ ended => ended

theorem runFigure6_ensures :
    (runFigure6 root start).Ensures (Orderly (figure6Plan root start))
      ⟨fun _ after => samplers after = [] ∧ ∃ sweep, Finished (figure6Plan root start) sweep ∧
          after = sweep ++ wentWell (figureTools (figure6Plan root start)),
        fun _ after => samplers after = []⟩ [] := by
  unfold runFigure6
  dsimp only
  rw [Program.ensures_bind, ensures_demand]
  refine ⟨fun _ => ?_, fun _ => rfl⟩
  dsimp only
  rw [Program.ensures_bind, ensures_demand]
  refine ⟨fun _ => ?_, fun _ => rfl⟩
  dsimp only
  rw [Program.ensures_bind, ensures_perform]
  refine ⟨trivial, ?_, rfl⟩
  refine (Program.ensures_foldlM (Between (figure6Plan root start))
    (fun done workload later env history within between => sweepWorkload_ensures within between)
    ⟨fun _ _ => rfl, rfl, .start _⟩).bind ?_ ?_
  · intro last after between
    have finished : Finished (figure6Plan root start) after := ⟨between.idle, between.inOrder⟩
    rw [Program.ensures_bind, ensures_perform]
    refine ⟨trivial, ?_, idle_then finished.idle trivial⟩
    dsimp only
    rw [Program.ensures_bind, ensures_perform]
    refine ⟨trivial, ?_, idle_then (idle_then finished.idle trivial) trivial⟩
    dsimp only
    -- neither the table nor its plot takes anything back
    have table : ∀ first second, Calm (.run first) → Calm (.run second) →
        Finished (figure6Plan root start) (after ++ [⟨.run first, true⟩] ++ [⟨.run second, true⟩]) :=
      fun _ _ calm calmToo => (finished.then calm).then calmToo
    split
    next collecting =>
      have collected : collects (figure6Plan root start).env = true := collecting
      apply (plots_ensures between.inherits (table _ _ (by exact trivial) (by exact trivial))).mono
      · rintro _ _ ⟨idle, rfl⟩
        refine ⟨idle, after, finished, ?_⟩
        rw [figureTools, if_pos collected, @wentWell_append [_, _], List.append_assoc, List.append_assoc]
        rfl
      · exact fun _ _ ended => ended
    next alone =>
      have uncollected : ¬ collects (figure6Plan root start).env = true := alone
      refine ⟨(table _ _ (by exact trivial) (by exact trivial)).idle, after, finished, ?_⟩
      rw [figureTools, if_neg uncollected, List.append_nil, wentWell, List.append_assoc]
      rfl
  · exact fun _ _ ended => ended

end Figure6

/-! ## `run_gear.sh` -/

section Gear

variable {root workload keyFile distribution : List Char} {env start : Variables}

def gearPlan (root : List Char) (env : Variables) (workload : List Char) : Plan where
  env := env
  outputRoot := env.orWord .outputRoot (file root "results/gear".toList)
  workloads := [workload]
  source _ := (lookUp workload).map fun entry =>
    (env.orWord .phase2KeyFile (file (env.orWord .keyDatasetDir []) entry.1),
      env.orWord .phase2Distribution entry.2)
  sampled mode := mode = .gear && collects env
  given :=
    if env.orWord .tooFarThresholdsSec [] = [] then none
    else some (env.orWord .tooFarThresholdsSec [])
  selected := []

theorem gearThresholds_ensures {history : History} {plan : Plan}
    (prepared : ∀ mode, mode.needsThresholds = false →
      Prepared plan env mode workload keyFile distribution history)
    (given : env.orWord .tooFarThresholdsSec [] ≠ [] →
      plan.given = some (env.orWord .tooFarThresholdsSec []))
    (idle : samplers history = []) (alone : plan.sampled .baseline = false) :
    (gearThresholds root env plan.outputRoot workload).Ensures (Orderly plan)
      ⟨fun last after => collects last = collects env ∧ samplers after = [] ∧
          Prepared plan last .gear workload keyFile distribution after,
        fun _ after => samplers after = []⟩ history := by
  have baseline := prepared .baseline rfl
  unfold gearThresholds
  split
  next =>
    have ready := baseline.ready (idle.trans (by rw [alone]; rfl))
    apply (runTwoPhase_ensures ready).bind
    · intro _ first ran
      obtain ⟨later, since⟩ := ran
      have stillIdle := later.samplers.trans idle
      apply (baselineThresholds_ensures stillIdle since.completed).bind
      · intro thresholds second read
        obtain ⟨onward, idleToo, known⟩ := read
        have handed := ((baseline.mono since.onward).mono onward).thresholds_assigned .gear known
        exact ⟨rfl, idleToo, handed⟩
      · exact fun _ _ ended => ended
    · exact fun _ _ later => later.samplers.trans idle
  next some => exact ⟨rfl, idle, { baseline with thresholds := fun _ => .inl (given some) }⟩

/-- The gear run beside its sampler, and the timeline. -/
theorem gearMode_ensures {history : History} {plan : Plan}
    {progressLog rocksdbLog output : List Char}
    (prepared : Prepared plan env .gear workload keyFile distribution history)
    (idle : samplers history = []) (sampled : plan.sampled .gear = collects env) :
    Program.Ensures (Orderly plan)
      ⟨fun _ after => samplers after = [] ∧
          Completed (modeDir plan.outputRoot workload .gear) .gear keyFile after,
        fun _ after => samplers after = []⟩
      (do
        if collects env then
          let _ ← status (.startSampler (statsLog (modeDir plan.outputRoot workload .gear)))
        let ok ← tryTwoPhase root env (modeDir plan.outputRoot workload .gear) .gear
        if collects env then
          let _ ← status .stopSampler
        demand ok .gearFailed
        perform (.extractGearTimeline progressLog rocksdbLog output)) history := by
  by_cases collecting : collects env = true
  · simp only [if_pos collecting, Program.ensures_bind, ensures_status, ensures_demand,
      ensures_perform]
    refine ⟨idle, fun started => ?_⟩
    have running := @samplers_start history (statsLog (modeDir plan.outputRoot workload .gear)) started
    rw [idle] at running
    have beside := (prepared.append _).ready (running.trans (by rw [sampled, collecting]; rfl))
    apply (tryTwoPhase_ensures beside).mono
    · intro ok after ran
      obtain ⟨later, since⟩ := ran
      have alive := later.samplers.trans running
      refine ⟨⟨_, alive⟩, fun stopped => ?_⟩
      have ended : samplers (after ++ [⟨.run .stopSampler, stopped⟩]) = [] := by
        rw [samplers_stop, alive]
        rfl
      exact ⟨fun succeeded => ⟨trivial, ⟨idle_then ended trivial,
        ((since succeeded).completed.append _).append _⟩, idle_then ended trivial⟩, fun _ => ended⟩
    · exact fun _ _ impossible => impossible.elim
  · simp only [if_neg collecting, Program.ensures_bind, ensures_demand, ensures_perform]
    have alone := prepared.ready (idle.trans (by rw [sampled, if_neg collecting]))
    apply (tryTwoPhase_ensures alone).mono
    · intro ok after ran
      obtain ⟨later, since⟩ := ran
      have still := later.samplers.trans idle
      exact ⟨fun succeeded => ⟨trivial, ⟨idle_then still trivial,
        (since succeeded).completed.append _⟩, idle_then still trivial⟩, fun _ => still⟩
    · exact fun _ _ impossible => impossible.elim

theorem runGear_ensures :
    (runGear root start workload).Ensures (Orderly (gearPlan root start workload))
      ⟨fun _ after => samplers after = [] ∧ ∃ keyFile,
          Completed (modeDir (gearPlan root start workload).outputRoot workload .gear) .gear keyFile
            after,
        fun _ after => samplers after = []⟩ [] := by
  unfold runGear
  cases found : lookUp workload with
  | none => exact rfl
  | some entry =>
    obtain ⟨keyFile, distribution⟩ := entry
    have somewhere : start.orWord .phase2Distribution distribution ≠ [] := by
      unfold Variables.orWord orElse
      split
      · exact lookUp_distribution found
      · assumption
    have prepared : ∀ history mode, mode.needsThresholds = false →
        Prepared (gearPlan root start workload)
          (exported start (start.orWord .phase2KeyFile (file (start.orWord .keyDatasetDir []) keyFile))
            (start.orWord .phase2Distribution distribution)) mode workload
          (start.orWord .phase2KeyFile (file (start.orWord .keyDatasetDir []) keyFile))
          (start.orWord .phase2Distribution distribution) history := by
      intro history mode free
      exact {
        inherits := Inherits.assign (Inherits.assign (fun _ _ => rfl) (by decide) _) (by decide) _
        keys := by
          simp +contextual [exported, Variables.assign, Variables.orWord, orElse]
        distributed := (if_neg somewhere).trans rfl
        member := List.mem_singleton_self _
        source := by simp [gearPlan, found]
        thresholds := fun needs => by rw [free] at needs; cases needs }
    dsimp only
    rw [Program.ensures_bind, ensures_demand]
    refine ⟨fun _ => ?_, fun _ => rfl⟩
    dsimp only
    rw [Program.ensures_bind, ensures_status]
    refine ⟨trivial, fun present => ?_⟩
    dsimp only
    rw [Program.ensures_bind, ensures_demand]
    refine ⟨fun _ => ?_, fun _ => rfl⟩
    dsimp only
    rw [Program.ensures_bind, ensures_perform]
    refine ⟨trivial, ?_, rfl⟩
    dsimp only
    rw [Program.ensures_bind, ensures_perform]
    refine ⟨trivial, ?_, rfl⟩
    apply (gearThresholds_ensures (prepared _) (fun some => if_neg some) rfl rfl).bind
    · intro last after read
      obtain ⟨collecting, idle, ready⟩ := read
      apply (gearMode_ensures ready idle collecting.symm).mono
      · exact fun _ after ended => ⟨ended.1, _, ended.2⟩
      · exact fun _ _ ended => ended
    · exact fun _ _ ended => ended

end Gear

/-! ## Whole runs -/

section Runs

variable (root : List Char) (env : Variables) (workload : List Char)
  (outside : History → (command : Command) → command.Answer)

/-- All commands of a sweep, with their answers. -/
def sweepHistory : History := ((runFigure6 root env).play outside []).1

def gearHistory : History := ((runGear root env workload).play outside []).1

/-- What is orderly holds of both scripts. -/
theorem throughout_runs {holds : Plan → History → Command → Prop}
    (implies : ∀ plan before command, Orderly plan before command → holds plan before command) :
    Throughout (fun before deed => holds (figure6Plan root env) before deed.1) []
        (sweepHistory root env outside) ∧
      Throughout (fun before deed => holds (gearPlan root env workload) before deed.1) []
        (gearHistory root env workload outside) :=
  ⟨(runFigure6_ensures.sound outside).1.imp fun before deed => implies _ before deed.1,
    (runGear_ensures.sound outside).1.imp fun before deed => implies _ before deed.1⟩

/-- The guard has just found the directory below the mount point, on the selected
    device and off the root file system's, and the erasure was confirmed. -/
def JustCleared (env : Variables) (before : History) (directory : List Char) : Prop :=
  env .confirmEraseDb = some "YES".toList ∧ ∃ earlier host output,
    before = earlier ++ [⟨.inspect, host⟩, ⟨.run (.makeDirectory output), true⟩] ∧
    ∃ device mountPoint dbDir, Passes host env.guard device mountPoint dbDir ∧
      host.readlink directory = some dbDir

theorem Guarded.justCleared {env : Variables} {before : History} {directory : List Char}
    (guarded : Guarded env before directory) : JustCleared env before directory := by
  obtain ⟨earlier, host, cleared, output, split, passed, confirmed, bound, some⟩ := guarded
  obtain ⟨device, mountPoint, dbDir, passes⟩ := (preflight_ok host env.guard).1 ⟨cleared, passed⟩
  have named : orElse env.guard.fdpDbDir [] = directory := by
    simp [Variables.guard, bound, orElse, some]
  refine ⟨confirmed, earlier, host, output, split, device, mountPoint, dbDir, passes, ?_⟩
  rw [← named]
  exact passes.dbDirLink

/-- No script erases a directory that the guard has not just let pass. -/
theorem erasures_guarded :
    Throughout (fun before deed => ∀ directory, deed.1 = .run (.erase directory) →
        JustCleared env before directory) [] (sweepHistory root env outside) ∧
      Throughout (fun before deed => ∀ directory, deed.1 = .run (.erase directory) →
        JustCleared env before directory) [] (gearHistory root env workload outside) := by
  apply @throughout_runs root env workload outside fun plan before command =>
    ∀ directory, command = .run (.erase directory) → JustCleared plan.env before directory
  intro plan before command orderly directory same
  subst same
  exact Guarded.justCleared orderly

/-- No phase starts but on the database that it belongs to. -/
theorem phases_in_order :
    Throughout (fun before deed => ∀ call, deed.1 = .benchmark call → InPhase before call) []
        (sweepHistory root env outside) ∧
      Throughout (fun before deed => ∀ call, deed.1 = .benchmark call → InPhase before call) []
        (gearHistory root env workload outside) := by
  apply @throughout_runs root env workload outside fun _ before command =>
    ∀ call, command = .benchmark call → InPhase before call
  intro plan before command orderly call same
  subst same
  exact orderly.1

/-- A call for a workload of the plan.  The first phase has the key file and the number of keys
    that were given for it, the second one those of the workload; if its mode goes by thresholds,
    they come from the workload's own baseline or were given. -/
def OwnCall (plan : Plan) (before : History) (call : Call) : Prop :=
  ∃ workload ∈ plan.workloads, ∃ keyFile distribution,
    plan.source workload = some (keyFile, distribution) ∧
    call.log = file (modeDir plan.outputRoot workload call.mode)
      (call.mode.text ++ ('_' :: call.phase.text) ++ ".log".toList) ∧
    (call.phase = .phase1 → call.keyFilePath = plan.env.orWord .phase1KeyFile [] ∧
      call.keyDistribution = "uniform".toList ∧ call.num = phase1Keys plan.env) ∧
    (call.phase = .phase2 → call.keyFilePath = keyFile ∧ call.keyDistribution = distribution ∧
      call.num = phase2Keys plan.env) ∧
    (call.mode.needsThresholds = true →
      ∃ thresholds, call.env .tooFarThresholdsSec = some thresholds ∧ thresholds ≠ [] ∧
        (plan.given = some thresholds ∨
          FromBaseline plan.outputRoot workload keyFile thresholds before))

/-- Thresholds never come from another workload. -/
theorem thresholds_from_baseline :
    Throughout (fun before deed => ∀ call, deed.1 = .benchmark call →
        OwnCall (figure6Plan root env) before call) [] (sweepHistory root env outside) ∧
      Throughout (fun before deed => ∀ call, deed.1 = .benchmark call →
        OwnCall (gearPlan root env workload) before call) []
        (gearHistory root env workload outside) := by
  apply @throughout_runs root env workload outside fun plan before command =>
    ∀ call, command = .benchmark call → OwnCall plan before call
  intro plan before command orderly call same
  subst same
  obtain ⟨_, workload, member, keyFile, distribution, source, fits⟩ := orderly
  have keys := fits.keys
  refine ⟨workload, member, keyFile, distribution, source, fits.log, ?_, ?_, fits.thresholds⟩
  · intro first
    rw [first] at keys
    exact keys
  · intro second
    rw [second] at keys
    exact keys

/-- A sampler starts when none is running, is stopped when it is the only one that was
    started and is still running, and runs beside every call of a sampled mode; the last
    sample of a log comes after its sampler. -/
def Sampled (plan : Plan) (before : History) (command : Command) : Prop :=
  (∀ log, command = .run (.startSampler log) ∨ command = .run (.sampleOnce log) →
    samplers before = []) ∧
  (command = .run .stopSampler → ∃ log, samplers before = [log]) ∧
  ∀ call, command = .benchmark call → ∃ workload ∈ plan.workloads,
    call.log = file (modeDir plan.outputRoot workload call.mode)
      (call.mode.text ++ ('_' :: call.phase.text) ++ ".log".toList) ∧
    samplers before = if plan.sampled call.mode
      then [statsLog (modeDir plan.outputRoot workload call.mode)] else []

/-- No two samplers ever run side by side, and none is left behind, however a
    script ends. -/
theorem one_sampler :
    (Throughout (fun before deed => Sampled (figure6Plan root env) before deed.1) []
        (sweepHistory root env outside) ∧
      Throughout (fun before deed => Sampled (gearPlan root env workload) before deed.1) []
        (gearHistory root env workload outside)) ∧
    samplers (sweepHistory root env outside) = [] ∧
      samplers (gearHistory root env workload outside) = [] := by
  refine ⟨?_, ?_, ?_⟩
  · apply @throughout_runs root env workload outside Sampled
    intro plan before command orderly
    refine ⟨?_, ?_, ?_⟩
    · intro log which
      rcases which with rfl | rfl
      · exact orderly
      · exact orderly
    · rintro rfl
      exact orderly
    · intro call same
      subst same
      obtain ⟨_, workload, member, _, _, _, fits⟩ := orderly
      exact ⟨workload, member, fits.log, fits.sampled⟩
  · have ended := (@runFigure6_ensures root env).sound outside
    unfold sweepHistory
    cases outcome : ((runFigure6 root env).play outside []).2 <;> rw [outcome] at ended
    · exact ended.2
    · exact ended.2.1
  · have ended := (@runGear_ensures root workload env).sound outside
    unfold gearHistory
    cases outcome : ((runGear root env workload).play outside []).2 <;> rw [outcome] at ended
    · exact ended.2
    · exact ended.2.1

/-- A sweep that ends well has completed the modes of every workload, one after the other in
    the order of the workloads, and then made the figures; the curves are never made of less. -/
theorem sweep_complete
    (oneLine : '\n' ∉ env.orWord .workloads "uniform,s0.5,s1.5,s3".toList) :
    (∀ result, ((runFigure6 root env).play outside []).2 = .ok result →
      ∃ sweep, InOrder (figure6Plan root env)
          (planned (readFields (env.orWord .workloads "uniform,s0.5,s1.5,s3".toList))) sweep ∧
        sweepHistory root env outside = sweep ++ wentWell (figureTools (figure6Plan root env))) ∧
    Throughout (fun before deed => ∀ directory first second output,
      deed.1 = .run (.resultsToWaCsv directory first second output) →
        ∃ workload ∈ readFields (env.orWord .workloads "uniform,s0.5,s1.5,s3".toList),
          directory = file (figure6Plan root env).outputRoot workload ∧
            Swept (figure6Plan root env) before workload) [] (sweepHistory root env outside) := by
  obtain ⟨orderly, ended⟩ := (@runFigure6_ensures root env).sound outside
  constructor
  · intro result outcome
    rw [outcome] at ended
    obtain ⟨_, sweep, finished, whole⟩ := ended
    exact ⟨sweep, finished.inOrder, whole⟩
  · apply orderly.imp
    intro before deed here directory first second output same
    rw [same] at here
    exact here oneLine

/-- A machine on which everything works, and a log that `run_phase` accepts. -/
def workingOutside (_ : History) : (command : Command) → command.Answer
  | .run _ => true
  | .inspect => Nested.host
  | .benchmark call => (true, totalLine call.num)
  | .readFile _ => some "1.00,2.00,3.00,4.00,5.00\n".toList

/-- The variables of a sweep over two workloads. -/
def twoWorkloads : Variables
  | .fdpDevice => Nested.environment.fdpDevice
  | .fdpMountPoint => Nested.environment.fdpMountPoint
  | .fdpDbDir => Nested.environment.fdpDbDir
  | .confirmEraseDb => some "YES".toList
  | .workloads => some "uniform,s3".toList
  | .keyDatasetDir => some "keys".toList
  | .phase1KeyFile => some "phase1.bin".toList
  | _ => none

theorem sweep_complete_two :
    ∃ sweep, InOrder (figure6Plan [] twoWorkloads)
        [("uniform".toList, .baseline), ("uniform".toList, .model), ("uniform".toList, .nofdp),
          ("s3".toList, .baseline), ("s3".toList, .model), ("s3".toList, .nofdp)] sweep ∧
      sweepHistory [] twoWorkloads workingOutside
        = sweep ++ wentWell (figureTools (figure6Plan [] twoWorkloads)) := by
  have complete := (sweep_complete [] twoWorkloads workingOutside (by decide)).1
  have order : planned (readFields (twoWorkloads.orWord .workloads "uniform,s0.5,s1.5,s3".toList))
      = [("uniform".toList, .baseline), ("uniform".toList, .model), ("uniform".toList, .nofdp),
          ("s3".toList, .baseline), ("s3".toList, .model), ("s3".toList, .nofdp)] := by decide
  have well : ((runFigure6 [] twoWorkloads).play workingOutside []).2.toBool = true := by
    decide +kernel
  rw [order] at complete
  cases outcome : ((runFigure6 [] twoWorkloads).play workingOutside []).2 with
  | ok result => exact complete result outcome
  | error failure =>
    rw [outcome] at well
    cases well

end Runs

end FdpRocks.Experiment
