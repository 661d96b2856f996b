import FdpRocks.Scripts.DeviceSamples

/-! # What the converters read from a sampler's log

`deviceSamples_log` — from any log of the sampler, both converters get the
sorted counters of exactly the turns that show both of them.
-/

namespace FdpRocks.Scripts

open FdpRocks.Library.Numerals FdpRocks.Library.Pattern FdpRocks.Library.PythonText

/-! ## Counters -/

section Counters

variable (unicode : Unicode)

/-- The first number behind a label, with or without commas between its digits. -/
def ShowsCounter (label text : List Char) (value : ℕ) : Prop :=
  ∃ before blanks numeral after,
    text = before ++ (label ++ (List.replicate (blanks + 1) ' ' ++ (numeral ++ after))) ∧
    ¬ label <:+: before ∧
    (∀ character ∈ numeral, character.isDigit = true ∨ character = ',') ∧
    numeral.filter (· ≠ ',') = decimal value ∧
    Stops (digitOrComma unicode) after

/-- What the output of one turn shows: both counters, or not both. -/
inductive Shows (text : List Char) : Option (ℕ × ℕ) → Prop where
  | both {host media : ℕ} : ShowsCounter unicode hbmwLabel text host →
      ShowsCounter unicode mbmwLabel text media → Shows text (some (host, media))
  | noHost : ¬ hbmwLabel <:+: text → Shows text none
  | noMedia : ¬ mbmwLabel <:+: text → Shows text none

variable {unicode} {label text : List Char} {value : ℕ}

theorem ShowsCounter.found (unbordered : Unbordered label) (shows : ShowsCounter unicode label text value) :
    ∃ found, search (counterRe unicode label) text = some found ∧
      counterValue unicode found = pure value := by
  obtain ⟨before, blanks, numeral, after, rfl, absent, characters, digits, stops⟩ := shows
  have spaces : ∀ character ∈ List.replicate (blanks + 1) ' ', unicode.isSpace character = true := by
    intro character member
    rw [List.eq_of_mem_replicate member]
    exact unicode.isSpace_blank
  have visible : ∀ character ∈ numeral, unicode.isSpace character = false := by
    intro character member
    cases characters character member with
    | inl digit => exact unicode.isSpace_of_digit digit
    | inr comma =>
      rw [comma]
      exact unicode.isSpace_ascii _ (by decide)
  have inside : ∀ character ∈ numeral, digitOrComma unicode character = true := by
    intro character member
    cases characters character member with
    | inl digit => simp [digitOrComma, unicode.isDigit_of_digit digit]
    | inr comma => simp [digitOrComma, comma]
  have some : numeral ≠ [] := by
    intro none
    rw [none] at digits
    exact decimal_ne_nil value digits.symm
  have starts : Stops unicode.isSpace (numeral ++ after) := by
    cases numeral with
    | nil => exact absurd rfl some
    | cons head tail => exact stops_cons (visible head List.mem_cons_self)
  have number := @matchPieces_group 1 _ [] _ _ _ (List.length_pos_of_ne_nil some) inside stops rfl
  have space := matchPieces_run 1 (by rw [List.length_replicate]; omega) spaces starts number
  have here := search_here ((matchPieces_literals label _ _).trans space)
  refine ⟨_, (search_gap unbordered absent).trans here, ?_⟩
  unfold counterValue
  dsimp only [List.headD_cons]
  rw [digits, if_neg (decimal_ne_nil value), unicode.int_decimal]

end Counters

/-! ## One turn -/

section Turns

variable {unicode : Unicode} {float : List Char → Except Raised ℚ} {stamp : ℕ → ℚ}

theorem pointed_visible {places scaled : ℕ} {character : Char}
    (member : character ∈ pointed places scaled) : unicode.isSpace character = false := by
  cases pointed_characters member with
  | inl digit => exact unicode.isSpace_of_digit digit
  | inr point =>
    rw [point]
    exact unicode.isSpace_point

/-- The sample of a turn, if it shows both counters. -/
def shownSample (stamp : ℕ → ℚ) (turn : SamplerTurn × Option (ℕ × ℕ)) : Option DeviceSample :=
  turn.2.map fun counters => ⟨stamp turn.1.nanoseconds, counters.1, counters.2⟩

theorem readDevice_turn (reads : ∀ nanoseconds, float (pointed 9 nanoseconds) = .ok (stamp nanoseconds))
    {turn : SamplerTurn × Option (ℕ × ℕ)} {output : List Char} (shows : Shows unicode output turn.2) :
    readDevice unicode float (pointed 9 turn.1.nanoseconds ++ '\n' :: output)
      = pure (shownSample stamp turn) := by
  obtain ⟨⟨nanoseconds, _⟩, counters⟩ := turn
  have line : ∀ character ∈ pointed 9 nanoseconds, decide (character ≠ '\n') = true := by
    intro character member
    refine decide_eq_true fun same => ?_
    exact not_mem_pointed rfl (by decide) 9 nanoseconds (same ▸ member)
  have stops : Stops (fun character => decide (character ≠ '\n')) ('\n' :: output) :=
    stops_cons (by simp)
  have timestamp : (pointed 9 nanoseconds ++ '\n' :: output).takeWhile (· ≠ '\n')
      = pointed 9 nanoseconds := takeWhile_stops line stops
  have rest : ((pointed 9 nanoseconds ++ '\n' :: output).dropWhile (· ≠ '\n')).tail = output := by
    rw [List.dropWhile_append_of_pos line]
    simp
  have bare : unicode.strip (pointed 9 nanoseconds) = pointed 9 nanoseconds :=
    trim_kept fun _ => pointed_visible
  unfold readDevice
  dsimp only
  rw [timestamp, rest, bare]
  cases shows with
  | both hostShown mediaShown =>
    obtain ⟨hostFound, hostSearch, hostValue⟩ := hostShown.found (by decide)
    obtain ⟨mediaFound, mediaSearch, mediaValue⟩ := mediaShown.found (by decide)
    rw [hostSearch, mediaSearch]
    dsimp only
    rw [reads, hostValue, mediaValue]
    rfl
  | noHost absent => rw [counterRe, search_absent absent]; rfl
  | noMedia absent =>
    have none : search (counterRe unicode mbmwLabel) output = none := search_absent absent
    rw [none]
    cases search (counterRe unicode hbmwLabel) output <;> rfl

end Turns

/-! ## Whole logs -/

section Logs

variable {unicode : Unicode} {float : List Char → Except Raised ℚ} {stamp : ℕ → ℚ}

theorem turns_head (turns : List SamplerTurn) : (turns.flatMap SamplerTurn.text).head? ≠ some '\n' := by
  cases turns with
  | nil => simp
  | cons turn turns =>
    show some 'S' ≠ some '\n'
    decide

/-- Text mode leaves the marker and the time as they are. -/
theorem universalNewlines_turn (turn : SamplerTurn) :
    universalNewlines turn.text
      = sampleMarker ++ (pointed 9 turn.nanoseconds ++ '\n' :: universalNewlines turn.output) := by
  have inMarker : '\r' ∉ sampleMarker := by decide
  have inNumber : '\r' ∉ pointed 9 turn.nanoseconds := not_mem_pointed rfl (by decide) 9 _
  have inBreak : '\r' ∉ ['\n'] := by decide
  rw [SamplerTurn.text, universalNewlines_clean inMarker, universalNewlines_clean inNumber]
  exact congrArg (fun text => sampleMarker ++ (pointed 9 turn.nanoseconds ++ text))
    (universalNewlines_clean inBreak turn.output)

theorem universalNewlines_samplerLog (before : List Char) (turns : List SamplerTurn) :
    universalNewlines (samplerLog before turns)
      = universalNewlines before ++ (turns.map fun turn => pointed 9 turn.nanoseconds
          ++ '\n' :: universalNewlines turn.output).flatMap (sampleMarker ++ ·) := by
  rw [samplerLog, universalNewlines_append _ _ (turns_head turns)]
  congr 1
  induction turns with
  | nil => rfl
  | cons turn turns inductionHypothesis =>
    rw [List.flatMap_cons, universalNewlines_append _ _ (turns_head turns), inductionHypothesis,
      universalNewlines_turn, List.map_cons, List.flatMap_cons]

/-- A log whose text has no markers but the sampler's, and what its turns show. -/
structure SampledLog (unicode : Unicode) where
  before : List Char
  turns : List (SamplerTurn × Option (ℕ × ℕ))
  beforeFree : ¬ sampleMarker <:+: before
  outputsFree : ∀ turn ∈ turns, ¬ sampleMarker <:+: turn.1.output
  shown : ∀ turn ∈ turns, Shows unicode (universalNewlines turn.1.output) turn.2

namespace SampledLog

def content (log : SampledLog unicode) : List Char := samplerLog log.before (log.turns.map Prod.fst)

def samples (stamp : ℕ → ℚ) (log : SampledLog unicode) : List DeviceSample :=
  log.turns.filterMap (shownSample stamp)

end SampledLog

/-- The chunks behind the first marker are the turns. -/
theorem split_content (log : SampledLog unicode) :
    (split sampleMarker 0 (universalNewlines log.content)).2
      = log.turns.map fun turn => pointed 9 turn.1.nanoseconds
          ++ '\n' :: universalNewlines turn.1.output := by
  have oneLine : '\n' ∉ sampleMarker := by decide
  have beforeFree : ¬ sampleMarker <:+: universalNewlines log.before :=
    fun inside => log.beforeFree (infix_of_universalNewlines oneLine inside)
  have chunksFree : ∀ chunk ∈ (log.turns.map Prod.fst).map (fun turn => pointed 9 turn.nanoseconds
      ++ '\n' :: universalNewlines turn.output), ¬ sampleMarker <:+: chunk := by
    intro chunk member inside
    rw [List.map_map] at member
    obtain ⟨turn, known, rfl⟩ := List.mem_map.mp member
    have number : 'S' ∉ pointed 9 turn.1.nanoseconds := not_mem_pointed rfl (by decide) 9 _
    -- the marker opens with a letter, which no number and no line break is
    have later : sampleMarker <:+: '\n' :: universalNewlines turn.1.output :=
      (infix_skip number).mp inside
    have inOutput : sampleMarker <:+: universalNewlines turn.1.output :=
      (@infix_skip 'S' _ ['\n'] _ (by decide)).mp later
    exact log.outputsFree turn known (infix_of_universalNewlines oneLine inOutput)
  rw [SampledLog.content, universalNewlines_samplerLog,
    split_pieces (by decide) (by decide) beforeFree chunksFree, List.map_map]
  rfl

theorem mapM_readDevice
    (reads : ∀ nanoseconds, float (pointed 9 nanoseconds) = .ok (stamp nanoseconds))
    {turns : List (SamplerTurn × Option (ℕ × ℕ))}
    (shown : ∀ turn ∈ turns, Shows unicode (universalNewlines turn.1.output) turn.2) :
    (turns.map fun turn => pointed 9 turn.1.nanoseconds
        ++ '\n' :: universalNewlines turn.1.output).mapM (readDevice unicode float)
      = pure (turns.map (shownSample stamp)) := by
  induction turns with
  | nil => rfl
  | cons turn turns inductionHypothesis =>
    have here := readDevice_turn reads (shown turn List.mem_cons_self)
    have later := inductionHypothesis fun other member => shown other (List.mem_cons_of_mem _ member)
    rw [List.map_cons, List.mapM_cons, here, later]
    rfl

theorem fileSamples_content
    (reads : ∀ nanoseconds, float (pointed 9 nanoseconds) = .ok (stamp nanoseconds))
    (log : SampledLog unicode) :
    fileSamples unicode float log.content = pure (log.samples stamp) := by
  unfold fileSamples
  rw [split_content]
  dsimp only
  rw [mapM_readDevice reads log.shown]
  rw [pure_bind, List.reduceOption, List.filterMap_map]
  rfl

theorem mapM_fileSamples
    (reads : ∀ nanoseconds, float (pointed 9 nanoseconds) = .ok (stamp nanoseconds))
    (logs : List (SampledLog unicode)) :
    (logs.map SampledLog.content).mapM (fileSamples unicode float)
      = pure (logs.map (SampledLog.samples stamp)) := by
  induction logs with
  | nil => rfl
  | cons log logs inductionHypothesis =>
    rw [List.map_cons, List.mapM_cons, fileSamples_content reads, inductionHypothesis]
    rfl

/-! ## Sorting -/

instance : Std.Total fun sample later : DeviceSample => sample.key ≤ later.key :=
  ⟨fun sample later => le_total sample.key later.key⟩

instance : IsTrans DeviceSample fun sample later => sample.key ≤ later.key :=
  ⟨fun _ _ _ => le_trans⟩

theorem sortSamples_byTime (samples : List DeviceSample) :
    (sortSamples samples).Pairwise fun sample later => sample.timestamp ≤ later.timestamp := by
  refine (List.pairwise_insertionSort _ samples).imp fun ordered => ?_
  exact (Prod.Lex.toLex_le_toLex'.1 ordered).1

/-- Samples that are in order by time stay as they are. -/
theorem sortSamples_eq {samples : List DeviceSample}
    (rising : samples.Pairwise fun sample later => sample.timestamp < later.timestamp) :
    sortSamples samples = samples := by
  refine List.Pairwise.insertionSort_eq (rising.imp fun less => ?_)
  exact Prod.Lex.toLex_le_toLex'.2 ⟨less.le, fun same => absurd same less.ne⟩

/-! ## The round trip -/

/-- Both converters read from the sampler's logs the samples of exactly the turns that
    show both counters, sorted; the newer one insists on two of them.  With a
    clock that runs forward they come in the order of the log. -/
theorem deviceSamples_log (unicode : Unicode) (float : List Char → Except Raised ℚ) (stamp : ℕ → ℚ)
    (reads : ∀ nanoseconds, float (pointed 9 nanoseconds) = .ok (stamp nanoseconds))
    (path : List Char) (log : SampledLog unicode) (logs : List (SampledLog unicode)) :
    (deviceSamples unicode float path log.content).run
        = some (if (log.samples stamp).length < 2 then
            .error (.valueError ("Insufficient FDP samples in ".toList ++ path))
          else .ok (sortSamples (log.samples stamp))) ∧
    Returns (legacyDeviceSamples unicode float (logs.map SampledLog.content))
      (sortSamples (logs.flatMap (SampledLog.samples stamp))) ∧
    (sortSamples (logs.flatMap (SampledLog.samples stamp))).Perm
      (logs.flatMap (SampledLog.samples stamp)) ∧
    ((sortSamples (logs.flatMap (SampledLog.samples stamp))).Pairwise fun sample later =>
      sample.timestamp ≤ later.timestamp) ∧
    ((log.turns.Pairwise fun turn later => stamp turn.1.nanoseconds < stamp later.1.nanoseconds) →
      sortSamples (log.samples stamp) = log.samples stamp) := by
  refine ⟨?_, ?_, List.perm_insertionSort _ _, sortSamples_byTime _, fun rising => ?_⟩
  · unfold deviceSamples
    rw [fileSamples_content reads]
    rw [pure_bind]
    by_cases few : (log.samples stamp).length < 2
    · rw [if_pos few, if_pos few]
      rfl
    · rw [if_neg few, if_neg few]
      rfl
  · unfold legacyDeviceSamples
    rw [mapM_fileSamples reads]
    rfl
  · refine sortSamples_eq (List.Pairwise.filterMap _ ?_ rising)
    intro turn later before sample shown other otherShown
    obtain ⟨counters, _, rfl⟩ := Option.map_eq_some_iff.mp shown
    obtain ⟨otherCounters, _, rfl⟩ := Option.map_eq_some_iff.mp otherShown
    exact before

end Logs

/-- Exact `float`, of text made of digits and points. -/
def exactFloat (text : List Char) : Except Raised ℚ :=
  match Unicode.ascii.float text with
  | some value => .ok value
  | none => .error (.valueError "could not convert string to float".toList)

/-- Two turns with both counters, and one between them that was refused. -/
def refusedOnce : SampledLog .ascii where
  before := []
  turns := [(⟨1000000000, "(HBMW): 1,024\n(MBMW): 2,048\n".toList⟩, some (1024, 2048)),
    (⟨2000000000, "sudo: a password is required\n".toList⟩, none),
    (⟨3000000000, "(HBMW): 4,096\n(MBMW): 8,192\n".toList⟩, some (4096, 8192))]
  beforeFree := by decide
  outputsFree := by decide
  shown := by
    have ends : digitOrComma .ascii '\n' = false := by decide
    intro turn member
    fin_cases member
    · exact .both ⟨"(".toList, 0, "1,024".toList, '\n' :: "(MBMW): 2,048\n".toList, rfl, by decide,
          by simp, by decide, stops_cons ends⟩
        ⟨"(HBMW): 1,024\n(".toList, 0, "2,048".toList, ['\n'], rfl, by decide, by simp, by decide,
          stops_cons ends⟩
    · exact .noHost (by decide)
    · exact .both ⟨"(".toList, 0, "4,096".toList, '\n' :: "(MBMW): 8,192\n".toList, rfl, by decide,
          by simp, by decide, stops_cons ends⟩
        ⟨"(HBMW): 4,096\n(".toList, 0, "8,192".toList, ['\n'], rfl, by decide, by simp, by decide,
          stops_cons ends⟩

theorem deviceSamples_log_refused :
    (deviceSamples .ascii exactFloat "fdp_stats.log".toList refusedOnce.content).run
      = some (.ok (sortSamples [⟨1000000000 / 10 ^ 9, 1024, 2048⟩, ⟨3000000000 / 10 ^ 9, 4096, 8192⟩])) := by
  have reads : ∀ nanoseconds : ℕ,
      exactFloat (pointed 9 nanoseconds) = .ok ((nanoseconds : ℚ) / 10 ^ 9) := by
    intro nanoseconds
    rw [exactFloat, Unicode.float_pointed]
  exact (deviceSamples_log .ascii exactFloat _ reads "fdp_stats.log".toList refusedOnce []).1

end FdpRocks.Scripts
