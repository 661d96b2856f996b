import FdpRocks.Library.Ancestry

/-! # `preflight.sh`

The guard in front of the erasure of the database directory.  What the script
asks the system for is a `Host`.
-/

namespace FdpRocks.Experiment

open FdpRocks.Library

/-! ## Paths -/

/-- One component of a path. -/
structure Name where
  text : List Char
  nonempty : text ≠ []
  plain : '/' ∉ text
deriving DecidableEq

/-- An absolute path without links, as `readlink -f` prints it. -/
abbrev Path := List Name

def spell : Path → List Char
  | [] => ['/']
  | names => names.flatMap fun name => '/' :: name.text

def dev : Name := ⟨['d', 'e', 'v'], by decide, by decide⟩

def home : Name := ⟨['h', 'o', 'm', 'e'], by decide, by decide⟩

/-! ## The host -/

/-- The file systems, block devices and tools of a machine. -/
structure Host where
  /-- `readlink -f`; `none` is a failure. -/
  readlink : List Char → Option Path
  canonical : ∀ {text : List Char} {path : Path}, readlink text = some path →
    readlink (spell path) = some path
  /-- The source devices by mount point. -/
  mounts : Path → Option Path
  /-- The lines of `lsblk -ndo PKNAME`, one for each parent. -/
  pkname : Path → List Name
  known : List Path
  finite : ∀ device, pkname device ≠ [] → device ∈ known
  acyclic : ∀ device, ¬ Relation.TransGen
    (fun child parent => parent ∈ (pkname child).map fun name => [dev, name]) device device
  /-- `test -b`. -/
  isBlockDevice : Path → Bool
  /-- `test -d`. -/
  isDirectory : List Char → Bool
  hasNvmeCli : Bool
  /-- The second line of `df`. -/
  availableBytes : Path → ℕ
  /-- What `awk` makes of a number of GiB. -/
  requiredBytes : List Char → ℕ
  isEmpty : Path → Bool

namespace Host

variable (host : Host)

/-- `findmnt -n -o SOURCE --target`: the deepest mount above a path. -/
def findmnt (path : Path) : Option Path := path.inits.reverse.findSome? host.mounts

def blocks : Ancestry Path where
  parents device := (host.pkname device).map fun name => [dev, name]
  known := host.known
  finite device someParents := host.finite device (by simpa using someParents)
  acyclic := host.acyclic

/-- The loop goes on with the first line of `lsblk` and prints where it ends; a
    name that leads nowhere leaves an empty line. -/
def baseDevice (text : List Char) : Option Path := (host.readlink text).bind host.blocks.climb

end Host

/-! ## The script -/

/-- The variables of the environment. -/
structure Environment where
  fdpDevice : Option (List Char) := none
  fdpMountPoint : Option (List Char) := none
  fdpDbDir : Option (List Char) := none
  fdpMinFreeGib : Option (List Char) := none
  confirmEraseDb : Option (List Char) := none

/-- A variable, or a word in place of one that is unset or empty. -/
def orElse (value : Option (List Char)) (word : List Char) : List Char :=
  if value.getD [] = [] then word else value.getD []

inductive Refusal where
  | deviceNotSet
  | mountPointNotSet
  | dbDirNotSet
  | notBlockDevice (device : Path)
  | noMountPoint (text : List Char)
  | noDbDir (text : List Char)
  | unsafeDirectory (dbDir : Path)
  | outsideMountPoint
  | sharesRoot (rootBase : Option Path)
  | notBacking (device mountDevice : Path)
  | noNvmeCli
  | notNumeric
  | noSpace (minFreeGib : List Char) (mountPoint : Path)
  | notConfirmed
  /-- A command failed under `set -e`; it has its own message. -/
  | command
deriving DecidableEq

def Refusal.message : Refusal → List Char
  | deviceNotSet => "FDP_DEVICE is not set.".toList
  | mountPointNotSet => "FDP_MOUNT_POINT is not set.".toList
  | dbDirNotSet => "FDP_DB_DIR is not set.".toList
  | notBlockDevice device => "Not a block device: ".toList ++ spell device
  | noMountPoint text => "Mount point does not exist: ".toList ++ text
  | noDbDir text => "Database directory does not exist: ".toList ++ text
  | unsafeDirectory dbDir => "Unsafe database directory: ".toList ++ spell dbDir
  | outsideMountPoint => "Database directory must be inside the FDP mount point.".toList
  | sharesRoot rootBase =>
    "The selected device shares the root filesystem device: ".toList ++ (rootBase.map spell).getD []
  | notBacking device mountDevice =>
    "FDP_DEVICE does not back FDP_MOUNT_POINT: ".toList ++ spell device ++ " vs ".toList ++
      spell mountDevice
  | noNvmeCli => "nvme-cli is not installed.".toList
  | notNumeric => "FDP_MIN_FREE_GIB must be numeric.".toList
  | noSpace minFreeGib mountPoint =>
    "Insufficient free space: require ".toList ++ minFreeGib ++ " GiB on ".toList ++
      spell mountPoint ++ ".".toList
  | notConfirmed =>
    "Database directory is not empty; set CONFIRM_ERASE_DB=YES to permit cleanup.".toList
  | command => []

/-- `^[0-9]+([.][0-9]+)?$`. -/
def isNumeric (text : List Char) : Bool :=
  !(text.takeWhile Char.isDigit).isEmpty &&
    match text.dropWhile Char.isDigit with
    | [] => true
    | point :: fraction => point == '.' && !fraction.isEmpty && fraction.all Char.isDigit

/-- The `case` over the database directory. -/
def checkDirectory (mountPoint dbDir : Path) : Except Refusal Unit :=
  if dbDir = [] ∨ dbDir = [home] ∨ spell dbDir = spell mountPoint then .error (.unsafeDirectory dbDir)
  else if (spell mountPoint ++ ['/']).isPrefixOf (spell dbDir) then .ok ()
  else .error .outsideMountPoint

/-- `test condition || fail message`. -/
def require (condition : Bool) (refusal : Refusal) : Except Refusal Unit :=
  if condition then .ok () else .error refusal

/-- An assignment from a command under `set -e`. -/
def assign {α : Type} : Option α → Except Refusal α
  | some value => .ok value
  | none => .error .command

/-- What the script prints at its end. -/
structure Cleared where
  device : Path
  mountPoint : Path
  dbDir : Path
  rootBase : Option Path
  minFreeGib : List Char
deriving DecidableEq

def preflight (host : Host) (environment : Environment) : Except Refusal Cleared := do
  let deviceText := orElse environment.fdpDevice []
  let mountPointText := orElse environment.fdpMountPoint []
  let dbDirText := orElse environment.fdpDbDir []
  let minFreeGib := orElse environment.fdpMinFreeGib ['5', '0']
  require (deviceText ≠ []) .deviceNotSet
  require (mountPointText ≠ []) .mountPointNotSet
  require (dbDirText ≠ []) .dbDirNotSet
  let device ← assign (host.readlink deviceText)
  require (host.isBlockDevice device) (.notBlockDevice device)
  require (host.isDirectory mountPointText) (.noMountPoint mountPointText)
  require (host.isDirectory dbDirText) (.noDbDir dbDirText)
  let mountPoint ← assign (host.readlink mountPointText)
  let dbDir ← assign (host.readlink dbDirText)
  checkDirectory mountPoint dbDir
  let rootDevice ← assign (host.findmnt [])
  let mountDevice ← assign (host.findmnt mountPoint)
  let rootBase := host.baseDevice (spell rootDevice)
  let targetBase := host.baseDevice (spell device)
  let mountBase := host.baseDevice (spell mountDevice)
  require (targetBase ≠ rootBase) (.sharesRoot rootBase)
  require (targetBase = mountBase) (.notBacking device mountDevice)
  require host.hasNvmeCli .noNvmeCli
  require (isNumeric minFreeGib) .notNumeric
  require (host.availableBytes mountPoint ≥ host.requiredBytes minFreeGib)
    (.noSpace minFreeGib mountPoint)
  require (host.isEmpty dbDir || environment.confirmEraseDb = some ['Y', 'E', 'S']) .notConfirmed
  return { device, mountPoint, dbDir, rootBase, minFreeGib }

end FdpRocks.Experiment
