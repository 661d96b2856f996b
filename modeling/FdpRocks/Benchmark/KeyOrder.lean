import Mathlib
import FdpRocks.Library.Words

/-! # Key-order files

The part of `rocksdb_bench.cpp` that names, loads and saves the per-thread key
vectors: `GetKeyOrderFilePath`, `LoadKeysFromFile` and `SaveKeysToFile`, over
an explicit file system.  What the operating system decides on its own (a read
that fails, a directory that cannot be made, a write that is cut short) is the
parameter `Host`.
-/

namespace FdpRocks.Benchmark

open FdpRocks.Library.Words

/-- The command-line flags, with the defaults of their `DEFINE_` lines. -/
structure Flags where
  workerThreads : UInt32 := 1
  num : UInt64 := 15000000
  batch : UInt32 := 10000
  addDelay : UInt32 := 0
  keyOrderDir : String := ""
  keyDistribution : String := "uniform"
  keySort : String := "random"
  keyFilePath : String := ""
  reportInterval : UInt64 := 1

/-! ## The file system -/

/-- What a path leads to. -/
inductive Node where
  | file (bytes : List UInt8)
  | directory
  /-- Anything else `stat` can see, by its mode bits. -/
  | special (mode : Nat)
  /-- A symbolic link to nothing: the name is taken, but `stat` does not see it. -/
  | dangling

structure FileSystem where
  entry : String → Option Node

/-- The bits of `st_mode` for the type of a file. -/
def sIfMt : Nat := 0o170000

/-- The `S_IFDIR` bit, which block devices and sockets have as well. -/
def sIfDir : Nat := 0o040000

def Node.mode : Node → Option Nat
  | .file _ => some 0o100644
  | .directory => some (sIfDir + 0o755)
  | .special mode => some mode
  | .dangling => none

/-- A path without the slashes at its end. -/
def trimSlashes (path : String) : String := String.ofList (path.toList.rdropWhile (· = '/'))

/-- The path of the directory that holds the last name of a path. -/
def parentPath (path : String) : String :=
  let above := (trimSlashes path).toList.rdropWhile (· ≠ '/')
  if above = [] then "."
  else if above.rdropWhile (· = '/') = [] then "/"
  else String.ofList (above.rdropWhile (· = '/'))

namespace FileSystem

/-- Nothing but the root and the working directory. -/
def empty : FileSystem := ⟨fun path => if path = "/" ∨ path = "." then some .directory else none⟩

/-- `stat`: the empty path never resolves. -/
def stat (fileSystem : FileSystem) (path : String) : Option Nat :=
  if path = "" then none else (fileSystem.entry path).bind Node.mode

/-- `S_ISDIR` of what `stat` sees. -/
def isDirectory (fileSystem : FileSystem) (path : String) : Bool :=
  (fileSystem.stat path).any fun mode => mode &&& sIfMt = sIfDir

/-- `mkdir` needs a free name in a directory. -/
def hasRoomFor (fileSystem : FileSystem) (path : String) : Bool :=
  path ≠ "" && (fileSystem.entry (trimSlashes path)).isNone && fileSystem.isDirectory (parentPath path)

def content (fileSystem : FileSystem) (path : String) : Option (List UInt8) :=
  match fileSystem.entry path with
  | some (.file bytes) => some bytes
  | _ => none

/-- An output stream may open on a regular file or on a name that leads to nothing. -/
def opensForWriting (fileSystem : FileSystem) (path : String) : Bool :=
  match fileSystem.entry path with
  | none | some (.file _) | some .dangling => true
  | some .directory | some (.special _) => false

def put (fileSystem : FileSystem) (path : String) (node : Node) : FileSystem :=
  ⟨fun other => if other = path then some node else fileSystem.entry other⟩

@[simp] theorem content_put_file (fileSystem : FileSystem) (path : String) (bytes : List UInt8) :
    (fileSystem.put path (.file bytes)).content path = some bytes := by
  simp [content, put]

theorem content_put_other (fileSystem : FileSystem) {path other : String} (node : Node)
    (distinct : other ≠ path) :
    (fileSystem.put path node).content other = fileSystem.content other := by
  simp [content, put, distinct]

theorem ne_of_hasRoomFor {fileSystem : FileSystem} {path : String}
    (room : fileSystem.hasRoomFor path = true) : path ≠ "" := by
  simp only [hasRoomFor, Bool.and_eq_true, decide_eq_true_eq] at room
  exact room.1.1

/-- What `stat` does not see has no content. -/
theorem content_of_stat {fileSystem : FileSystem} {path : String} (named : path ≠ "")
    (missing : fileSystem.stat path = none) : fileSystem.content path = none := by
  rw [stat, if_neg named] at missing
  unfold content
  split
  next bytes present =>
    rw [present] at missing
    cases missing
  next => rfl

end FileSystem

inductive Reading where
  | denied
  | faulty
  | sound
deriving DecidableEq

inductive Writing where
  | denied
  /-- Only the first `count` bytes reach the file. -/
  | cut (count : Nat)
  | complete
deriving DecidableEq

/-- What the machine decides: its byte order, and how each system call ends. -/
structure Host where
  order : ByteOrder
  reading : String → Reading
  makesDirectory : Int32 → Bool
  writing : Int32 → Writing

/-- A little-endian machine on which no system call fails. -/
def Host.cooperative : Host :=
  ⟨.little, fun _ => .sound, fun _ => true, fun _ => .complete⟩

/-! ## `GetKeyOrderFilePath` -/

def getKeyOrderFilePath (flags : Flags) (tid : Int32) : String :=
  if flags.keyFilePath ≠ "" then
    flags.keyFilePath
  else
    flags.keyOrderDir ++ "/keys_num_" ++ toString flags.num
      ++ "_threads_" ++ toString flags.workerThreads
      ++ "_dist_" ++ flags.keyDistribution
      ++ (if flags.keyDistribution = "uniform" then "_sort_" ++ flags.keySort else "")
      ++ "_tid_" ++ toString tid.toInt ++ ".bin"

/-- Generated paths tell threads apart; a path given by the user does not. -/
theorem getKeyOrderFilePath_injective {flags : Flags} (generated : flags.keyFilePath = "")
    {left right : Int32} (same : getKeyOrderFilePath flags left = getKeyOrderFilePath flags right) :
    left = right := by
  simp only [getKeyOrderFilePath, generated, ne_eq, not_true_eq_false, if_false] at same
  have text : toString left.toInt = toString right.toInt := by simpa using same
  exact Int32.toInt_inj.mp (Int.repr_inj.mp text)

theorem getKeyOrderFilePath_given {flags : Flags} (given : flags.keyFilePath ≠ "") (tid : Int32) :
    getKeyOrderFilePath flags tid = flags.keyFilePath := if_pos given

/-! ## `LoadKeysFromFile` -/

structure Loaded where
  ok : Bool
  keys : List UInt64
  stderr : List String

def loadKeysFromFile (flags : Flags) (host : Host) (fileSystem : FileSystem) (tid : Int32)
    (keys : List UInt64) : Loaded :=
  let filepath := getKeyOrderFilePath flags tid
  match fileSystem.content filepath with
  | none => ⟨false, keys, []⟩
  | some bytes =>
    if host.reading filepath = .denied then
      ⟨false, keys, []⟩
    else if bytes.length % 8 ≠ 0 then
      ⟨false, keys, ["Warning: Invalid key order file size: " ++ filepath ++ "\n"]⟩
    else if host.reading filepath = .faulty then
      ⟨false, [], ["Warning: Failed to read key order file: " ++ filepath ++ "\n"]⟩
    else
      let keyCount := bytes.length / 8
      ⟨true, decodeWords host.order keyCount bytes,
        ["Thread " ++ toString tid.toInt ++ ": Loaded " ++ toString keyCount ++ " keys from "
          ++ filepath ++ "\n"]⟩

/-- A vector that comes back with `true` is the decoded file. -/
theorem loadKeysFromFile_inv {flags : Flags} {host : Host} {fileSystem : FileSystem} {tid : Int32}
    {keys : List UInt64} (loads : (loadKeysFromFile flags host fileSystem tid keys).ok = true) :
    ∃ bytes, fileSystem.content (getKeyOrderFilePath flags tid) = some bytes ∧
      bytes.length % 8 = 0 ∧
      (loadKeysFromFile flags host fileSystem tid keys).keys
        = decodeWords host.order (bytes.length / 8) bytes := by
  unfold loadKeysFromFile at loads ⊢
  cases opened : fileSystem.content (getKeyOrderFilePath flags tid) with
  | none => simp [opened] at loads
  | some bytes =>
    simp only [opened] at loads ⊢
    split at loads
    · cases loads
    · split at loads
      · cases loads
      · split at loads
        · cases loads
        next denied aligned faulty =>
          rw [ne_eq, not_not] at aligned
          exact ⟨bytes, rfl, aligned, by simp [denied, aligned, faulty]⟩

theorem loadKeysFromFile_sound {flags : Flags} {host : Host} {fileSystem : FileSystem}
    {tid : Int32} {bytes : List UInt8}
    (content : fileSystem.content (getKeyOrderFilePath flags tid) = some bytes)
    (sound : host.reading (getKeyOrderFilePath flags tid) = .sound)
    (aligned : bytes.length % 8 = 0) (keys : List UInt64) :
    (loadKeysFromFile flags host fileSystem tid keys).ok = true ∧
      (loadKeysFromFile flags host fileSystem tid keys).keys
        = decodeWords host.order (bytes.length / 8) bytes := by
  simp [loadKeysFromFile, content, sound, aligned]

/-- A load that fails leaves a vector that was empty empty. -/
theorem loadKeysFromFile_failed {flags : Flags} {host : Host} {fileSystem : FileSystem}
    {tid : Int32} (fails : (loadKeysFromFile flags host fileSystem tid []).ok = false) :
    (loadKeysFromFile flags host fileSystem tid []).keys = [] := by
  unfold loadKeysFromFile at fails ⊢
  cases opened : fileSystem.content (getKeyOrderFilePath flags tid) with
  | none => simp only [opened]
  | some bytes =>
    simp only [opened] at fails ⊢
    split
    · rfl
    · split
      · rfl
      · split
        · rfl
        next denied aligned faulty => simp [denied, aligned, faulty] at fails

/-! ## `SaveKeysToFile` -/

structure Saved where
  ok : Bool
  fileSystem : FileSystem
  stderr : List String

/-- The second half of `SaveKeysToFile`, once the directory is known to exist. -/
def writeKeys (flags : Flags) (host : Host) (fileSystem : FileSystem) (tid : Int32)
    (keys : List UInt64) : Saved :=
  let filepath := getKeyOrderFilePath flags tid
  let bytes := encodeWords host.order keys
  if fileSystem.opensForWriting filepath then
    match host.writing tid with
    | .denied => ⟨false, fileSystem, []⟩
    | .cut count =>
      ⟨false, fileSystem.put filepath (.file (bytes.take count)),
        ["Error: Failed to write key order file: " ++ filepath ++ "\n"]⟩
    | .complete =>
      ⟨true, fileSystem.put filepath (.file bytes),
        ["Thread " ++ toString tid.toInt ++ ": Saved " ++ toString keys.length ++ " keys to "
          ++ filepath ++ "\n"]⟩
  else
    ⟨false, fileSystem, []⟩

def saveKeysToFile (flags : Flags) (host : Host) (fileSystem : FileSystem) (tid : Int32)
    (keys : List UInt64) : Saved :=
  match fileSystem.stat flags.keyOrderDir with
  | none =>
    if fileSystem.hasRoomFor flags.keyOrderDir ∧ host.makesDirectory tid then
      writeKeys flags host (fileSystem.put flags.keyOrderDir .directory) tid keys
    else
      ⟨false, fileSystem, ["Error: Failed to create directory: " ++ flags.keyOrderDir ++ "\n"]⟩
  | some mode =>
    if mode &&& sIfDir = 0 then
      ⟨false, fileSystem, ["Error: " ++ flags.keyOrderDir ++ " is not a directory\n"]⟩
    else
      writeKeys flags host fileSystem tid keys

/-! ### What a save does to the files -/

theorem writeKeys_other {flags : Flags} {host : Host} {fileSystem : FileSystem} {tid : Int32}
    {keys : List UInt64} {path : String} (other : path ≠ getKeyOrderFilePath flags tid) :
    (writeKeys flags host fileSystem tid keys).fileSystem.content path
      = fileSystem.content path := by
  unfold writeKeys
  cases opens : fileSystem.opensForWriting (getKeyOrderFilePath flags tid) with
  | false => simp [opens]
  | true =>
    cases written : host.writing tid with
    | denied => simp [opens]
    | cut count => simp [opens, FileSystem.content_put_other _ _ other]
    | complete => simp [opens, FileSystem.content_put_other _ _ other]

theorem writeKeys_ok {flags : Flags} {host : Host} {fileSystem : FileSystem} {tid : Int32}
    {keys : List UInt64} (saves : (writeKeys flags host fileSystem tid keys).ok = true) :
    (writeKeys flags host fileSystem tid keys).fileSystem.content (getKeyOrderFilePath flags tid)
      = some (encodeWords host.order keys) := by
  unfold writeKeys at saves ⊢
  cases opens : fileSystem.opensForWriting (getKeyOrderFilePath flags tid) with
  | false => simp [opens] at saves
  | true =>
    cases written : host.writing tid with
    | denied => simp [opens, written] at saves
    | cut count => simp [opens, written] at saves
    | complete => simp [opens]

/-- A save either stops before it opens the file, or writes into a file system
    in which only the key-order directory may be new. -/
theorem saveKeysToFile_cases (flags : Flags) (host : Host) (fileSystem : FileSystem) (tid : Int32)
    (keys : List UInt64) :
    (saveKeysToFile flags host fileSystem tid keys).ok = false ∧
        (saveKeysToFile flags host fileSystem tid keys).fileSystem = fileSystem ∨
      ∃ ready : FileSystem,
        (∀ path, ready.content path = fileSystem.content path) ∧
        saveKeysToFile flags host fileSystem tid keys = writeKeys flags host ready tid keys := by
  unfold saveKeysToFile
  cases found : fileSystem.stat flags.keyOrderDir with
  | none =>
    by_cases makes : fileSystem.hasRoomFor flags.keyOrderDir = true ∧ host.makesDirectory tid = true
    · right
      refine ⟨fileSystem.put flags.keyOrderDir .directory, ?_, if_pos makes⟩
      intro path
      by_cases same : path = flags.keyOrderDir
      · -- `stat` has seen nothing, so no file stood where the directory is made.
        subst same
        rw [FileSystem.content_of_stat (FileSystem.ne_of_hasRoomFor makes.1) found]
        simp [FileSystem.content, FileSystem.put]
      · exact FileSystem.content_put_other _ _ same
    · left
      simp [makes]
  | some mode =>
    by_cases directory : mode &&& sIfDir = 0
    · left
      simp [directory]
    · right
      exact ⟨fileSystem, fun _ => rfl, if_neg directory⟩

theorem saveKeysToFile_other {flags : Flags} {host : Host} {fileSystem : FileSystem} {tid : Int32}
    {keys : List UInt64} {path : String} (other : path ≠ getKeyOrderFilePath flags tid) :
    (saveKeysToFile flags host fileSystem tid keys).fileSystem.content path
      = fileSystem.content path := by
  rcases saveKeysToFile_cases flags host fileSystem tid keys with ⟨_, stops⟩ | ⟨ready, same, writes⟩
  · rw [stops]
  · rw [writes, writeKeys_other other, same]

theorem saveKeysToFile_ok {flags : Flags} {host : Host} {fileSystem : FileSystem} {tid : Int32}
    {keys : List UInt64} (saves : (saveKeysToFile flags host fileSystem tid keys).ok = true) :
    (saveKeysToFile flags host fileSystem tid keys).fileSystem.content
        (getKeyOrderFilePath flags tid) = some (encodeWords host.order keys) := by
  rcases saveKeysToFile_cases flags host fileSystem tid keys with ⟨fails, _⟩ | ⟨ready, _, writes⟩
  · rw [fails] at saves; cases saves
  · rw [writes] at saves ⊢
    exact writeKeys_ok saves

end FdpRocks.Benchmark
