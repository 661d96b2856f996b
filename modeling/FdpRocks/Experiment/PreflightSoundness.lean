import FdpRocks.Experiment.Preflight

/-! # What the guard lets through

* `checkDirectory_ok` — the patterns of the `case` compare components.
* `preflight_ok` — the tests of the script as conditions on the host.
* `preflight_protects_iff` — when they are enough to keep the erasure on the
  disks of the selected device and that device off the root file system.
-/

namespace FdpRocks.Experiment

open FdpRocks.Library

/-! ## Containment by spelling -/

/-- The spelling of the components of a path. -/
def components (names : List Name) : List Char := names.flatMap fun name => '/' :: name.text

@[simp] theorem components_cons (name : Name) (rest : List Name) :
    components (name :: rest) = '/' :: (name.text ++ components rest) := rfl

theorem spell_of_ne_nil {path : Path} (nonempty : path ≠ []) : spell path = components path := by
  cases path with
  | nil => exact absurd rfl nonempty
  | cons name rest => rfl

/-- A component ends at the next slash. -/
theorem takeWhile_component (name : Name) {rest : List Char}
    (ends : rest.head? = none ∨ rest.head? = some '/') :
    (name.text ++ rest).takeWhile (· ≠ '/') = name.text := by
  have inside : ∀ character ∈ name.text, decide (character ≠ '/') = true := by
    intro character member
    exact decide_eq_true fun slash => name.plain (slash ▸ member)
  rw [List.takeWhile_append_of_pos inside]
  cases rest with
  | nil => simp
  | cons character rest =>
    obtain rfl : character = '/' := by simpa using ends
    simp

theorem components_head (names : List Name) :
    (components names).head? = none ∨ (components names).head? = some '/' := by
  cases names with
  | nil => exact .inl rfl
  | cons name rest => exact .inr rfl

theorem components_prefix (names others : List Name) :
    components names ++ ['/'] <+: components others ↔ ∃ rest, rest ≠ [] ∧ others = names ++ rest := by
  induction names generalizing others with
  | nil => cases others <;> simp [components]
  | cons name names inductionHypothesis =>
    cases others with
    | nil => simp [components]
    | cons other others =>
      have startsAgain : (components names ++ ['/']).head? = some '/' := by
        cases names <;> rfl
      rw [components_cons, components_cons, List.cons_append, List.cons_prefix_cons]
      simp only [true_and, List.append_assoc, List.cons_append, List.cons.injEq]
      constructor
      · rintro ⟨tail, same⟩
        -- both sides go up to a slash
        have texts := congrArg (List.takeWhile (· ≠ '/')) same
        rw [List.append_assoc, takeWhile_component name (.inr (by
          rw [List.head?_append, startsAgain]; rfl)),
          takeWhile_component other (components_head others)] at texts
        rw [texts, List.append_assoc, List.append_cancel_left_eq] at same
        obtain ⟨rest, nonempty, isSuffix⟩ := (inductionHypothesis others).1 ⟨tail, same⟩
        have sameName : name = other := by
          cases name; cases other; simpa using texts
        exact ⟨rest, nonempty, sameName.symm, isSuffix⟩
      · rintro ⟨rest, nonempty, rfl, isSuffix⟩
        exact (List.prefix_append_right_inj _).2 ((inductionHypothesis others).2 ⟨rest, nonempty, isSuffix⟩)

/-- Nothing is spelled with two slashes at its start. -/
theorem root_not_above (path : Path) : ¬ spell [] ++ ['/'] <+: spell path := by
  cases path with
  | nil => simp [spell]
  | cons name rest =>
    rw [spell_of_ne_nil (List.cons_ne_nil _ _), components_cons]
    cases text : name.text with
    | nil => exact absurd text name.nonempty
    | cons character others =>
      -- a component does not start with a slash, so there is no second one
      have plain : '/' ≠ character := by
        intro slash
        exact name.plain (slash ▸ text ▸ List.mem_cons_self)
      simp [spell, plain]

theorem checkDirectory_ok (mountPoint dbDir : Path) (done : Unit) :
    checkDirectory mountPoint dbDir = .ok done ↔
      mountPoint ≠ [] ∧ dbDir ≠ [home] ∧ ∃ rest, rest ≠ [] ∧ dbDir = mountPoint ++ rest := by
  cases mountPoint with
  | nil =>
    -- under the root, the pattern of the script is `//*`
    have outside := mt List.isPrefixOf_iff_prefix.1 (root_not_above dbDir)
    rw [checkDirectory, if_neg outside]
    split <;> simp
  | cons name names =>
    have someMountPoint : name :: names ≠ [] := List.cons_ne_nil _ _
    cases dbDir with
    | nil => simp [checkDirectory]
    | cons other others =>
      have someDbDir : other :: others ≠ [] := List.cons_ne_nil _ _
      have below := components_prefix (name :: names) (other :: others)
      rw [checkDirectory, spell_of_ne_nil someMountPoint, spell_of_ne_nil someDbDir]
      by_cases inside : components (name :: names) ++ ['/'] <+: components (other :: others)
      case pos =>
        have longer : components (other :: others) ≠ components (name :: names) := by
          intro same
          have shorter := inside.length_le
          simp [same] at shorter
        by_cases isHome : other :: others = [home]
        · simp [isHome]
        · have safe : ¬ (other :: others = [] ∨ other :: others = [home] ∨
              components (other :: others) = components (name :: names)) := by
            rintro (none | atHome | same)
            · exact someDbDir none
            · exact isHome atHome
            · exact longer same
          rw [if_neg safe, if_pos (List.isPrefixOf_iff_prefix.2 inside)]
          simpa [isHome] using below.1 inside
      case neg =>
        have outside := mt below.2 inside
        rw [if_neg (mt List.isPrefixOf_iff_prefix.1 inside)]
        simp only [someMountPoint, ne_eq, not_false_eq_true, true_and]
        constructor
        · intro accepted
          split at accepted <;> cases accepted
        · rintro ⟨_, below⟩
          exact absurd below outside

/-! ## Steps of the script -/

theorem bind_ok {Value Result : Type} {step : Except Refusal Value}
    {next : Value → Except Refusal Result} {result : Result} :
    step >>= next = .ok result ↔ ∃ value, step = .ok value ∧ next value = .ok result := by
  cases step with
  | error refusal => simp [bind, Except.bind]
  | ok value => simp [bind, Except.bind]

@[simp] theorem require_ok {condition : Bool} {refusal : Refusal} {done : Unit} :
    require condition refusal = .ok done ↔ condition = true := by
  cases condition <;> simp [require]

@[simp] theorem assign_ok {Value : Type} {command : Option Value} {value : Value} :
    assign command = .ok value ↔ command = some value := by
  cases command <;> simp [assign]

/-- The tests, for what the variables resolve to. -/
structure Passes (host : Host) (environment : Environment) (device mountPoint dbDir : Path) :
    Prop where
  deviceSet : orElse environment.fdpDevice [] ≠ []
  mountPointSet : orElse environment.fdpMountPoint [] ≠ []
  dbDirSet : orElse environment.fdpDbDir [] ≠ []
  deviceLink : host.readlink (orElse environment.fdpDevice []) = some device
  blockDevice : host.isBlockDevice device = true
  mountPointExists : host.isDirectory (orElse environment.fdpMountPoint []) = true
  dbDirExists : host.isDirectory (orElse environment.fdpDbDir []) = true
  mountPointLink : host.readlink (orElse environment.fdpMountPoint []) = some mountPoint
  dbDirLink : host.readlink (orElse environment.fdpDbDir []) = some dbDir
  belowMountPoint : mountPoint ≠ [] ∧ dbDir ≠ [home] ∧
    ∃ rest, rest ≠ [] ∧ dbDir = mountPoint ++ rest
  bases : ∃ rootDevice mountDevice, host.findmnt [] = some rootDevice ∧
    host.findmnt mountPoint = some mountDevice ∧
    host.baseDevice (spell device) ≠ host.baseDevice (spell rootDevice) ∧
    host.baseDevice (spell device) = host.baseDevice (spell mountDevice)
  nvmeCli : host.hasNvmeCli = true
  numeric : isNumeric (orElse environment.fdpMinFreeGib ['5', '0']) = true
  space : host.requiredBytes (orElse environment.fdpMinFreeGib ['5', '0']) ≤
    host.availableBytes mountPoint
  confirmed : host.isEmpty dbDir = true ∨ environment.confirmEraseDb = some ['Y', 'E', 'S']

theorem preflight_ok (host : Host) (environment : Environment) :
    (∃ cleared, preflight host environment = .ok cleared) ↔
      ∃ device mountPoint dbDir, Passes host environment device mountPoint dbDir := by
  constructor
  · rintro ⟨cleared, accepted⟩
    simp only [preflight, bind_ok, require_ok, assign_ok, checkDirectory_ok, decide_eq_true_eq,
      Bool.or_eq_true] at accepted
    -- one field for each test that was passed, in their order
    obtain ⟨_, deviceSet, _, mountPointSet, _, dbDirSet, device, deviceLink, _, blockDevice, _,
      mountPointExists, _, dbDirExists, mountPoint, mountPointLink, dbDir, dbDirLink, _,
      belowMountPoint, rootDevice, root, mountDevice, mount, _, notRoot, _, backs, _, nvmeCli, _,
      numeric, _, space, _, confirmed, _⟩ := accepted
    exact ⟨device, mountPoint, dbDir, deviceSet, mountPointSet, dbDirSet, deviceLink, blockDevice,
      mountPointExists, dbDirExists, mountPointLink, dbDirLink, belowMountPoint,
      ⟨rootDevice, mountDevice, root, mount, notRoot, backs⟩, nvmeCli, numeric, space, confirmed⟩
  · rintro ⟨device, mountPoint, dbDir, passes⟩
    obtain ⟨rootDevice, mountDevice, root, mount, notRoot, backs⟩ := passes.bases
    simp only [preflight, bind_ok, require_ok, assign_ok, checkDirectory_ok, decide_eq_true_eq,
      Bool.or_eq_true]
    exact ⟨_, (), passes.deviceSet, (), passes.mountPointSet, (), passes.dbDirSet, device,
      passes.deviceLink, (), passes.blockDevice, (), passes.mountPointExists, (),
      passes.dbDirExists, mountPoint, passes.mountPointLink, dbDir, passes.dbDirLink, (),
      passes.belowMountPoint, rootDevice, root, mountDevice, mount, (), notRoot, (), backs, (),
      passes.nvmeCli, (), passes.numeric, (), passes.space, (), passes.confirmed, rfl⟩

/-- What holds whenever the script exits with zero holds of all that passes. -/
theorem accepted_iff_passes (host : Host) (environment : Environment)
    {holds : Path → Path → Prop} :
    (∀ cleared device dbDir, preflight host environment = .ok cleared →
      host.readlink (orElse environment.fdpDevice []) = some device →
      host.readlink (orElse environment.fdpDbDir []) = some dbDir → holds device dbDir) ↔
      ∀ device mountPoint dbDir, Passes host environment device mountPoint dbDir →
        holds device dbDir := by
  constructor
  · intro ofAccepted device mountPoint dbDir passes
    obtain ⟨cleared, accepted⟩ := (preflight_ok host environment).2 ⟨_, _, _, passes⟩
    exact ofAccepted cleared device dbDir accepted passes.deviceLink passes.dbDirLink
  · intro ofPasses cleared device dbDir accepted deviceLink dbDirLink
    obtain ⟨_, mountPoint, _, passes⟩ := (preflight_ok host environment).1 ⟨cleared, accepted⟩
    -- the links give one path each
    obtain rfl := Option.some.inj (passes.deviceLink.symm.trans deviceLink)
    obtain rfl := Option.some.inj (passes.dbDirLink.symm.trans dbDirLink)
    exact ofPasses _ _ _ passes

/-! ## Disks -/

namespace Host

variable (host : Host)

/-- The whole disks below what is mounted from a source. -/
def disksUnder (source : Path) : Set Path :=
  {disk | ∃ device, host.readlink (spell source) = some device ∧ disk ∈ host.blocks.roots device}

/-- The same without the one that the script looks at. -/
def sideDisks (source : Path) : Set Path :=
  {disk | disk ∈ host.disksUnder source ∧ host.baseDevice (spell source) ≠ some disk}

/-- The source of the deepest mount between a directory, itself left out, and a path. -/
def nested (directory path : Path) : Option Path :=
  ((path.drop directory.length).inits.tail.map fun below => directory ++ below).reverse.findSome?
    host.mounts

theorem disksUnder_eq {source device : Path} (link : host.readlink (spell source) = some device) :
    host.disksUnder source = host.blocks.roots device := by
  ext disk
  simp [disksUnder, link]

/-- The script looks at one of the disks. -/
theorem baseDevice_mem {source device : Path} (link : host.readlink (spell source) = some device) :
    ∃ disk ∈ host.disksUnder source, host.baseDevice (spell source) = some disk := by
  obtain ⟨disk, isRoot, climbed⟩ := host.blocks.climb_total device
  exact ⟨disk, ⟨device, link, isRoot⟩, by rw [baseDevice, link, Option.bind_some, climbed]⟩

/-- A source that leads nowhere has no base. -/
theorem mem_of_baseDevice {source disk : Path} (base : host.baseDevice (spell source) = some disk) :
    disk ∈ host.disksUnder source := by
  obtain ⟨device, link, _⟩ := Option.bind_eq_some_iff.mp base
  obtain ⟨other, below, isBase⟩ := host.baseDevice_mem link
  exact Option.some.inj (isBase.symm.trans base) ▸ below

/-- Below a directory, either a nested mount is deepest or that of the directory. -/
theorem findmnt_append (directory rest : Path) :
    host.findmnt (directory ++ rest) =
      (host.nested directory (directory ++ rest)).or (host.findmnt directory) := by
  rw [findmnt, List.inits_append, List.reverse_append, List.findSome?_append, nested,
    List.drop_left, findmnt]

end Host

/-! ## What the guard protects -/

/-- If the script exits with zero, the file system that holds the database
    directory has all its disks below the selected device, and none of these is
    below the root file system. -/
def Protected (host : Host) (environment : Environment) : Prop :=
  ∀ cleared device dbDir, preflight host environment = .ok cleared →
    host.readlink (orElse environment.fdpDevice []) = some device →
    host.readlink (orElse environment.fdpDbDir []) = some dbDir →
    (∃ source, host.findmnt dbDir = some source ∧
      host.disksUnder source ⊆ host.disksUnder device) ∧
    ∀ source, host.findmnt [] = some source →
      Disjoint (host.disksUnder device) (host.disksUnder source)

/-- None of the gaps between the tests is used: no mount of other disks between
    the mount point and the database directory, and no other disk behind a second
    parent. -/
structure Gapless (host : Host) (device mountPoint dbDir : Path) : Prop where
  nestedMount : ∀ source, host.nested mountPoint dbDir = some source →
    host.disksUnder source ⊆ host.disksUnder device
  sideDisks : host.nested mountPoint dbDir = none → ∀ source,
    host.findmnt mountPoint = some source → host.sideDisks source ⊆ host.disksUnder device
  sideDevice : ∀ source, host.findmnt [] = some source →
    Disjoint (host.sideDisks device) (host.disksUnder source)
  sideRoot : ∀ source, host.findmnt [] = some source →
    Disjoint (host.disksUnder device) (host.sideDisks source)

section Protection

variable {host : Host} {environment : Environment} {device mountPoint dbDir : Path}

/-- The selected device and the file system of the mount point have a disk in common. -/
theorem Passes.common (passes : Passes host environment device mountPoint dbDir) :
    ∃ source, host.findmnt mountPoint = some source ∧ ∃ disk ∈ host.disksUnder device,
      disk ∈ host.disksUnder source ∧ host.baseDevice (spell source) = some disk := by
  obtain ⟨_, source, _, mounted, _, backs⟩ := passes.bases
  obtain ⟨disk, below, isBase⟩ := host.baseDevice_mem (host.canonical passes.deviceLink)
  -- both climbs end at the same disk, which is below both
  have otherBase : host.baseDevice (spell source) = some disk := backs.symm.trans isBase
  exact ⟨source, mounted, disk, below, host.mem_of_baseDevice otherBase, otherBase⟩

/-- The file system of the database directory is that of a nested mount or of the
    mount point. -/
theorem Passes.findmnt_dbDir (passes : Passes host environment device mountPoint dbDir) :
    host.findmnt dbDir = (host.nested mountPoint dbDir).or (host.findmnt mountPoint) := by
  obtain ⟨_, _, rest, _, rfl⟩ := passes.belowMountPoint
  exact host.findmnt_append mountPoint rest

theorem Gapless.backed (gapless : Gapless host device mountPoint dbDir)
    (passes : Passes host environment device mountPoint dbDir) :
    ∃ source, host.findmnt dbDir = some source ∧
      host.disksUnder source ⊆ host.disksUnder device := by
  rw [passes.findmnt_dbDir]
  cases nested : host.nested mountPoint dbDir with
  | some source => exact ⟨source, rfl, gapless.nestedMount source nested⟩
  | none =>
    obtain ⟨source, mounted, base, baseBelow, _, isBase⟩ := passes.common
    refine ⟨source, mounted, fun disk below => ?_⟩
    -- the disk the script looks at is the device's, the others are by assumption
    by_cases same : host.baseDevice (spell source) = some disk
    · rw [isBase, Option.some.injEq] at same
      exact same ▸ baseBelow
    · exact gapless.sideDisks nested source mounted ⟨below, same⟩

theorem Gapless.apart (gapless : Gapless host device mountPoint dbDir)
    (passes : Passes host environment device mountPoint dbDir) {source : Path}
    (root : host.findmnt [] = some source) :
    Disjoint (host.disksUnder device) (host.disksUnder source) := by
  obtain ⟨rootDevice, _, rootMounted, _, notRoot, _⟩ := passes.bases
  obtain rfl : rootDevice = source := Option.some.inj (rootMounted.symm.trans root)
  -- a disk below both would be aside for one of the two climbs
  refine Set.disjoint_left.2 fun disk below belowRoot => ?_
  by_cases isBase : host.baseDevice (spell device) = some disk
  · have isSide : host.baseDevice (spell rootDevice) ≠ some disk := fun same =>
      notRoot (isBase.trans same.symm)
    exact Set.disjoint_left.1 (gapless.sideRoot rootDevice root) below ⟨belowRoot, isSide⟩
  · exact Set.disjoint_left.1 (gapless.sideDevice rootDevice root) ⟨below, isBase⟩ belowRoot

end Protection

theorem preflight_protects_iff (host : Host) (environment : Environment) :
    Protected host environment ↔
      ∀ device mountPoint dbDir, Passes host environment device mountPoint dbDir →
        Gapless host device mountPoint dbDir := by
  refine (accepted_iff_passes host environment).trans ?_
  constructor
  · intro isProtected device mountPoint dbDir passes
    obtain ⟨⟨source, holds, backed⟩, apart⟩ := isProtected device mountPoint dbDir passes
    rw [passes.findmnt_dbDir] at holds
    exact {
      nestedMount := fun nestedSource nested => by
        rw [nested, Option.some_or, Option.some.injEq] at holds
        exact holds ▸ backed
      sideDisks := fun nested mountSource mounted => by
        rw [nested, Option.none_or, mounted, Option.some.injEq] at holds
        exact fun disk side => backed (holds ▸ side.1)
      sideDevice := fun root mounted => (apart root mounted).mono_left fun disk side => side.1
      sideRoot := fun root mounted => (apart root mounted).mono_right fun disk side => side.1 }
  · intro gapless device mountPoint dbDir passes
    have noGap := gapless device mountPoint dbDir passes
    exact ⟨noGap.backed passes, fun source root => noGap.apart passes root⟩

/-- If one common disk is enough, a second parent does no harm to the database
    directory, but a nested mount does. -/
theorem preflight_shares_iff (host : Host) (environment : Environment) :
    (∀ cleared device dbDir, preflight host environment = .ok cleared →
      host.readlink (orElse environment.fdpDevice []) = some device →
      host.readlink (orElse environment.fdpDbDir []) = some dbDir →
      ∃ source, host.findmnt dbDir = some source ∧
        (host.disksUnder source ∩ host.disksUnder device).Nonempty) ↔
      ∀ device mountPoint dbDir, Passes host environment device mountPoint dbDir →
        ∀ source, host.nested mountPoint dbDir = some source →
          (host.disksUnder source ∩ host.disksUnder device).Nonempty := by
  refine (accepted_iff_passes host environment).trans ?_
  constructor
  · intro shares device mountPoint dbDir passes source nested
    obtain ⟨holder, holds, shared⟩ := shares device mountPoint dbDir passes
    rw [passes.findmnt_dbDir, nested, Option.some_or, Option.some.injEq] at holds
    exact holds ▸ shared
  · intro nestedShares device mountPoint dbDir passes
    rw [passes.findmnt_dbDir]
    cases nested : host.nested mountPoint dbDir with
    | some source => exact ⟨source, rfl, nestedShares _ _ _ passes source nested⟩
    | none =>
      obtain ⟨source, mounted, disk, below, belowSource, _⟩ := passes.common
      exact ⟨source, mounted, disk, belowSource, below⟩

/-! ## A nested mount -/

namespace Nested

def mnt : Name := ⟨['m', 'n', 't'], by decide, by decide⟩

def db : Name := ⟨['d', 'b'], by decide, by decide⟩

def system : Name := ⟨['s', 'd', 'a'], by decide, by decide⟩

def systemPart : Name := ⟨['s', 'd', 'a', '1'], by decide, by decide⟩

def otherPart : Name := ⟨['s', 'd', 'a', '2'], by decide, by decide⟩

def selected : Name := ⟨['n', 'v', 'm', 'e', '0', 'n', '1'], by decide, by decide⟩

/-- No links among these. -/
def paths : List Path := [[mnt], [mnt, db], [dev, systemPart], [dev, otherPart], [dev, selected]]

def pkname (device : Path) : List Name :=
  if device = [dev, systemPart] ∨ device = [dev, otherPart] then [system] else []

def mounts (mountPoint : Path) : Option Path :=
  if mountPoint = [] then some [dev, systemPart]
  else if mountPoint = [mnt] then some [dev, selected]
  else if mountPoint = [mnt, db] then some [dev, otherPart]
  else none

/-- A second partition of the system disk, mounted inside the mount point of the
    selected device. -/
def host : Host where
  readlink text := paths.find? fun path => spell path = text
  canonical := by
    intro text path found
    have same := List.find?_some found
    simp only [decide_eq_true_eq] at same
    rwa [same]
  mounts := mounts
  pkname := pkname
  known := [[dev, systemPart], [dev, otherPart]]
  finite := by
    intro device someParents
    unfold pkname at someParents
    grind
  acyclic := Ancestry.acyclic_of_flat (by
    intro device parent isParent
    obtain ⟨name, member, rfl⟩ := List.mem_map.1 isParent
    unfold pkname at member
    split_ifs at member
    · obtain rfl := List.mem_singleton.1 member
      decide +kernel
    · cases member)
  isBlockDevice device := device = [dev, selected]
  isDirectory _ := true
  hasNvmeCli := true
  availableBytes _ := 2 ^ 40
  requiredBytes _ := 50 * 2 ^ 30
  isEmpty _ := false

def environment : Environment where
  fdpDevice := some (spell [dev, selected])
  fdpMountPoint := some (spell [mnt])
  fdpDbDir := some (spell [mnt, db])
  confirmEraseDb := some ['Y', 'E', 'S']

end Nested

/-- The script exits with zero, and the file system of the database directory is
    on the system disk only. -/
theorem nestedMount_unprotected :
    (∃ cleared, preflight Nested.host Nested.environment = .ok cleared ∧
      cleared.dbDir = [Nested.mnt, Nested.db] ∧ cleared.device = [dev, Nested.selected]) ∧
    Nested.host.findmnt [Nested.mnt, Nested.db] = some [dev, Nested.otherPart] ∧
    Nested.host.disksUnder [dev, Nested.otherPart] = {[dev, Nested.system]} ∧
    Nested.host.disksUnder [dev, Nested.systemPart] = {[dev, Nested.system]} ∧
    Nested.host.disksUnder [dev, Nested.selected] = {[dev, Nested.selected]} ∧
    ¬ Protected Nested.host Nested.environment := by
  have systemDisk : Nested.host.blocks.roots [dev, Nested.system] = {[dev, Nested.system]} :=
    Nested.host.blocks.roots_of_nil (by decide +kernel)
  have holderParents : Nested.host.blocks.parents [dev, Nested.otherPart] =
      [[dev, Nested.system]] := by decide +kernel
  have rootParents : Nested.host.blocks.parents [dev, Nested.systemPart] =
      [[dev, Nested.system]] := by decide +kernel
  have accepted : preflight Nested.host Nested.environment =
      .ok ⟨[dev, Nested.selected], [Nested.mnt], [Nested.mnt, Nested.db],
        some [dev, Nested.system], ['5', '0']⟩ := by decide +kernel
  have holder : Nested.host.findmnt [Nested.mnt, Nested.db] = some [dev, Nested.otherPart] := by
    decide +kernel
  have holderLink : Nested.host.readlink (spell [dev, Nested.otherPart]) =
      some [dev, Nested.otherPart] := by decide +kernel
  have rootLink : Nested.host.readlink (spell [dev, Nested.systemPart]) =
      some [dev, Nested.systemPart] := by decide +kernel
  have deviceLink : Nested.host.readlink (spell [dev, Nested.selected]) =
      some [dev, Nested.selected] := by decide +kernel
  have holderDisks : Nested.host.disksUnder [dev, Nested.otherPart] = {[dev, Nested.system]} := by
    rw [Nested.host.disksUnder_eq holderLink, Nested.host.blocks.roots_of_single holderParents,
      systemDisk]
  have rootDisks : Nested.host.disksUnder [dev, Nested.systemPart] = {[dev, Nested.system]} := by
    rw [Nested.host.disksUnder_eq rootLink, Nested.host.blocks.roots_of_single rootParents,
      systemDisk]
  have deviceDisks : Nested.host.disksUnder [dev, Nested.selected] = {[dev, Nested.selected]} := by
    rw [Nested.host.disksUnder_eq deviceLink, Nested.host.blocks.roots_of_nil (by decide +kernel)]
  refine ⟨⟨_, accepted, rfl, rfl⟩, holder, holderDisks, rootDisks, deviceDisks, fun isProtected => ?_⟩
  obtain ⟨⟨source, holds, backed⟩, _⟩ := isProtected _ _ [Nested.mnt, Nested.db] accepted deviceLink
    (by decide +kernel)
  obtain rfl : source = [dev, Nested.otherPart] := Option.some.inj (holds.symm.trans holder)
  rw [holderDisks, deviceDisks, Set.singleton_subset_singleton] at backed
  exact absurd backed (by decide +kernel)

end FdpRocks.Experiment
