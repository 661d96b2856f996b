import FdpRocks.Experiment.PreflightSoundness
import FdpRocks.Prefill.Fill

/-! # `prefill.sh`

The script that fills a device before an experiment: its own tests, those of
`preflight.sh`, and then the prefill tool.

* `fillMain_file` — the tool never leaves more than the size that it has read.
* `prefill_leaves_room` — the space that is to be left is left, however the tool ends.
-/

namespace FdpRocks.Prefill

open FdpRocks.Experiment FdpRocks.Library.Numerals

/-! ## The script -/

inductive Refused where
  | notConfirmed
  | mountPointNotSet
  | outputEmpty
  | outsideMountPoint
  | alreadyThere (output : Path)
  | preflight (refusal : Refusal)
  | noRoom (postFreeGib : List Char)
  /-- A tool has failed, and `set -e` ends the script. -/
  | toolFailed

/-- What the script itself prints behind `ERROR: `. -/
def Refused.message : Refused → List Char
  | notConfirmed => "Set CONFIRM_PREFILL=YES after verifying the dedicated FDP device.".toList
  | mountPointNotSet => "FDP_MOUNT_POINT is not set.".toList
  | outputEmpty => "FDP_PREFILL_FILE is empty.".toList
  | outsideMountPoint => "FDP_PREFILL_FILE must be inside FDP_MOUNT_POINT.".toList
  | alreadyThere output => "Prefill file already exists: ".toList ++ spell output
  | noRoom postFreeGib => "Prefill would leave less than ".toList ++ postFreeGib ++ " GiB free.".toList
  | preflight _ | toolFailed => []

structure Settings where
  environment : Environment
  confirmPrefill : Option (List Char) := none
  prefillSize : Option (List Char) := none
  prefillFile : Option (List Char) := none
  postPrefillFreeGib : Option (List Char) := none

namespace Settings

variable (settings : Settings)

def mountPoint : List Char := orElse settings.environment.fdpMountPoint []

def size : List Char := orElse settings.prefillSize "58G".toList

def output : List Char :=
  orElse settings.prefillFile (settings.mountPoint ++ "/fdp_prefill.bin".toList)

def postFreeGib : List Char := orElse settings.postPrefillFreeGib "50".toList

/-- `FDP_MIN_FREE_GIB=0` in front of `preflight.sh`. -/
def guarded : Environment := { settings.environment with fdpMinFreeGib := some ['0'] }

end Settings

/-- What the script calls beside `preflight.sh`. -/
structure Tools where
  /-- `readlink -m`. -/
  readlink : List Char → Path
  /-- `test -e`. -/
  isThere : Path → Bool
  /-- `numfmt --from=iec`; `none` is a failure. -/
  numfmt : List Char → Option ℤ
  /-- The binary is there, or the compiler has made it. -/
  hasBinary : Bool
  binary : List Char
  system : System

inductive Ended where
  | refused (reason : Refused)
  | filled (exit : Option Exit)

section Script

variable (host : Host) (tools : Tools) (settings : Settings)

/-- From the sizes on; the sum is made in 64 bits. -/
def checkRoom (mountPoint output : Path) : Ended :=
  match tools.numfmt settings.size with
  | none => .refused .toolFailed
  | some prefillBytes =>
    let postFreeBytes : ℤ := host.requiredBytes settings.postFreeGib
    if ¬ (prefillBytes + postFreeBytes).bmod (2 ^ 64) ≤ host.availableBytes mountPoint then
      .refused (.noRoom settings.postFreeGib)
    else if ¬ tools.hasBinary then .refused .toolFailed
    else .filled (fillMain tools.system [tools.binary, settings.size, spell output])

def prefill : Ended :=
  if settings.confirmPrefill ≠ some "YES".toList then .refused .notConfirmed
  else if settings.mountPoint = [] then .refused .mountPointNotSet
  else if settings.output = [] then .refused .outputEmpty
  else
    let output := tools.readlink settings.output
    match host.readlink settings.mountPoint with
    | none => .refused .toolFailed
    | some mountPoint =>
      if ¬ (spell mountPoint ++ ['/']).isPrefixOf (spell output) then .refused .outsideMountPoint
      else if tools.isThere output then .refused (.alreadyThere output)
      else
        match preflight host settings.guarded with
        | .error refusal => .refused (.preflight refusal)
        | .ok _ => checkRoom host tools settings mountPoint output

end Script

/-- A size of the tool's grammar is refused by `numfmt`, or it is the same number. -/
def Documented (numfmt : List Char → Option ℤ) : Prop :=
  ∀ text number multiplier, SizeText text number multiplier → ∀ bytes ∈ numfmt text,
    bytes = number * multiplier

/-! ## The tool -/

theorem parseSize_sized {text : List Char} {number multiplier : ℕ} (sized : SizeText text number multiplier)
    (fits : number * multiplier < 2 ^ 64) : (parseSize text).toNat = number * multiplier := by
  obtain ⟨digits, factor, splits, nonempty, decimal, rfl, rfl⟩ := sizeText_iff.mp sized
  rw [← magnitude_of_digits decimal] at fits ⊢
  unfold parseSize
  rw [splits]
  exact scaled_exact nonempty decimal fits

/-- Whatever the system answers, what is left is within the size. -/
theorem fillMain_file (system : System) (binary size output : List Char) :
    ∃ ended, fillMain system [binary, size, output] = some ended ∧
      (∀ length ∈ ended.file, length ≤ (parseSize size).toNat) ∧
      (ended.status = 0 → ended.file = some (parseSize size).toNat) := by
  unfold fillMain
  dsimp only
  split
  next => exact ⟨_, rfl, by simp, by simp⟩
  next =>
    split
    next => exact ⟨_, rfl, by simp, by simp⟩
    next =>
      split
      next => exact ⟨_, rfl, by simp, by simp⟩
      next =>
        obtain ⟨result, left, sound⟩ := fillLoop_spec system (parseSize size).toNat
        refine ⟨afterLoop system result, by rw [left]; rfl, ?_⟩
        cases result with
        | writeFailed state =>
          obtain ⟨reached, short, _⟩ := sound
          refine ⟨fun length isLength => ?_, fun ok => absurd ok (by simp [afterLoop])⟩
          cases isLength
          rw [reached.file]
          exact short.le
        | full state =>
          obtain ⟨reached, full⟩ := sound
          have holds : (afterLoop system (.full state)).file = some state.file := by
            cases syncs : system.syncs <;> simp [afterLoop, syncs]
          rw [holds, reached.file, full]
          exact ⟨fun length isLength => (Option.some.inj isLength).symm.le, fun _ => rfl⟩

/-! ## The guard -/

section Guard

variable {host : Host} {tools : Tools} {settings : Settings} {exit : Option Exit}

theorem checkRoom_filled {mountPoint output : Path}
    (ran : checkRoom host tools settings mountPoint output = .filled exit) :
    ∃ bytes, tools.numfmt settings.size = some bytes ∧
      (bytes + (host.requiredBytes settings.postFreeGib : ℤ)).bmod (2 ^ 64) ≤ host.availableBytes mountPoint ∧
      exit = fillMain tools.system [tools.binary, settings.size, spell output] := by
  unfold checkRoom at ran
  split at ran
  next => cases ran
  next bytes isBytes =>
    dsimp only at ran
    split at ran
    next => cases ran
    next room =>
      split at ran
      next => cases ran
      next =>
        cases ran
        exact ⟨bytes, isBytes, not_not.mp room, rfl⟩

theorem prefill_filled (ran : prefill host tools settings = .filled exit) :
    settings.confirmPrefill = some "YES".toList ∧ ∃ mountPoint cleared,
      host.readlink settings.mountPoint = some mountPoint ∧
      spell mountPoint ++ ['/'] <+: spell (tools.readlink settings.output) ∧
      tools.isThere (tools.readlink settings.output) = false ∧
      preflight host settings.guarded = .ok cleared ∧
      checkRoom host tools settings mountPoint (tools.readlink settings.output) = .filled exit := by
  unfold prefill at ran
  split at ran
  next => cases ran
  next confirmed =>
    split at ran
    next => cases ran
    next =>
      split at ran
      next => cases ran
      next =>
        dsimp only at ran
        split at ran
        next => cases ran
        next mountPoint link =>
          split at ran
          next => cases ran
          next below =>
            split at ran
            next => cases ran
            next absent =>
              split at ran
              next => cases ran
              next cleared accepted =>
                exact ⟨not_not.mp confirmed, mountPoint, cleared, link,
                  List.isPrefixOf_iff_prefix.mp (not_not.mp below), by simpa using absent, accepted, ran⟩

theorem below_of_prefix {mountPoint output : Path} (opens : spell mountPoint ++ ['/'] <+: spell output) :
    ∃ below, below ≠ [] ∧ output = mountPoint ++ below := by
  cases mountPoint with
  | nil => exact absurd opens (root_not_above output)
  | cons name names =>
    cases output with
    | nil =>
      have length := opens.length_le
      rw [spell_of_ne_nil (List.cons_ne_nil _ _), components_cons] at length
      simp [spell] at length
    | cons other others =>
      rw [spell_of_ne_nil (List.cons_ne_nil _ _), spell_of_ne_nil (List.cons_ne_nil _ _)] at opens
      have split := components_prefix (name :: names) (other :: others)
      exact split.mp opens

/-- When the tool is started, the run was confirmed, `preflight.sh` has let the device
    pass, and the file is a new one below the mount point.  For a size of the tool's
    grammar that fits, the tool ends, and whatever the writes, `fsync` and the
    allocation did, the space that was free before still has room for the file that
    is left and the bytes that are to stay free; and it ends with zero only if the
    file has the size. -/
theorem prefill_leaves_room (documented : Documented tools.numfmt)
    (ran : prefill host tools settings = .filled exit) :
    settings.confirmPrefill = some "YES".toList ∧
    ∃ device mountPoint dbDir below, Passes host settings.guarded device mountPoint dbDir ∧ below ≠ [] ∧
      tools.readlink settings.output = mountPoint ++ below ∧ tools.isThere (mountPoint ++ below) = false ∧
      ∀ number multiplier, SizeText settings.size number multiplier →
        number * multiplier + host.requiredBytes settings.postFreeGib < 2 ^ 63 →
        ∃ ended, exit = some ended ∧
          (∀ length ∈ ended.file,
            length + host.requiredBytes settings.postFreeGib ≤ host.availableBytes mountPoint) ∧
          (ended.status = 0 → ended.file = some (number * multiplier)) := by
  obtain ⟨confirmed, mountPoint, cleared, link, inside, absent, accepted, checked⟩ := prefill_filled ran
  obtain ⟨below, someBelow, output⟩ := below_of_prefix inside
  obtain ⟨device, passed, dbDir, passes⟩ := (preflight_ok host settings.guarded).mp ⟨cleared, accepted⟩
  obtain rfl := Option.some.inj (passes.mountPointLink.symm.trans link)
  refine ⟨confirmed, device, passed, dbDir, below, passes, someBelow, output, output ▸ absent, ?_⟩
  intro number multiplier sized fits
  obtain ⟨bytes, isBytes, room, rfl⟩ := checkRoom_filled checked
  obtain ⟨ended, isEnded, within, complete⟩ := fillMain_file tools.system tools.binary settings.size
    (spell (tools.readlink settings.output))
  have same := documented _ _ _ sized bytes isBytes
  have parsed := parseSize_sized sized (by omega)
  have sum : (bytes + (host.requiredBytes settings.postFreeGib : ℤ)).bmod (2 ^ 64)
      = (number * multiplier + host.requiredBytes settings.postFreeGib : ℕ) := by
    have cast : (number * multiplier : ℤ) + host.requiredBytes settings.postFreeGib
        = (number * multiplier + host.requiredBytes settings.postFreeGib : ℕ) := by push_cast; rfl
    rw [same, cast]
    generalize number * multiplier + host.requiredBytes settings.postFreeGib = total at fits
    apply Int.bmod_eq_of_le <;> omega
  rw [sum] at room
  have enough : number * multiplier + host.requiredBytes settings.postFreeGib
      ≤ host.availableBytes passed := by exact_mod_cast room
  rw [parsed] at within complete
  refine ⟨ended, isEnded, fun length isLength => ?_, complete⟩
  have atMost := within length isLength
  omega

end Guard

/-! ## A small run -/

section Small

/-- `numfmt` for one size only, and a file system that takes a sector at a time. -/
def smallTools : Tools where
  readlink _ := [Nested.mnt, Nested.db]
  isThere _ := false
  numfmt text := if text = "4K".toList then some 4096 else none
  hasBinary := true
  binary := "fill".toList
  system := ⟨true, true, fun _ => some 512, true, []⟩

def smallSettings : Settings where
  environment := Nested.environment
  confirmPrefill := some "YES".toList
  prefillSize := some "4K".toList

theorem smallTools_documented : Documented smallTools.numfmt := by
  intro text number multiplier sized bytes isBytes
  simp only [smallTools] at isBytes
  split at isBytes
  next known =>
    obtain ⟨digits, factor, splits, _, _, rfl, rfl⟩ := sizeText_iff.mp sized
    have parts : splitUnit text = some ("4".toList, 1024) := by
      rw [known]
      decide
    rw [parts] at splits
    cases splits
    cases isBytes
    decide
  next => cases isBytes

/-- A prefill that goes through. -/
theorem prefill_leaves_room_small : ∃ ended,
    prefill Nested.host smallTools smallSettings = .filled (some ended) ∧
      ∀ length ∈ ended.file, length + 50 * 2 ^ 30 ≤ 2 ^ 40 := by
  have accepted : preflight Nested.host smallSettings.guarded =
      .ok ⟨[dev, Nested.selected], [Nested.mnt], [Nested.mnt, Nested.db],
        some [dev, Nested.system], ['0']⟩ := by decide +kernel
  have link : Nested.host.readlink smallSettings.mountPoint = some [Nested.mnt] := by decide +kernel
  have size : smallSettings.size = "4K".toList := by decide
  have ran : prefill Nested.host smallTools smallSettings = .filled (fillMain smallTools.system
      ["fill".toList, "4K".toList, spell [Nested.mnt, Nested.db]]) := by
    unfold prefill
    rw [if_neg (by decide), if_neg (by decide), if_neg (by decide)]
    dsimp only
    rw [link]
    dsimp only
    rw [if_neg (by decide), if_neg (by decide), accepted]
    dsimp only
    unfold checkRoom
    rw [size]
    show (if ¬ ((4096 : ℤ) + (50 * 2 ^ 30 : ℕ)).bmod (2 ^ 64) ≤ (2 ^ 40 : ℕ) then _ else _) = _
    rw [if_neg (by decide)]
    rfl
  obtain ⟨_, _, _, _, _, _, _, _, _, room⟩ := prefill_leaves_room smallTools_documented ran
  have sized : SizeText smallSettings.size 4 1024 := by
    rw [size]
    have digits : ∀ character ∈ ['4'], character.isDigit = true :=
      List.forall_mem_singleton.mpr rfl
    have known : ('K', 1024) ∈ units := by simp [units]
    exact .scaled (List.cons_ne_nil _ _) digits known
  obtain ⟨ended, isEnded, leaves, _⟩ := room 4 1024 sized (by decide)
  rw [isEnded] at ran
  exact ⟨ended, ran, leaves⟩

end Small

end FdpRocks.Prefill
