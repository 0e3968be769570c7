import SnapshotArchive.Operation
import SnapshotArchive.Value
import SnapshotArchive.Text.Case
import SnapshotArchive.Text.Class

/-!
# Settings

An archive is set up by variables of its environment. Each has a default; a value that cannot be
used is a fault, found before anything is done.

* `Settings.ofEnvironment` : the settings, or the first fault.
* `Settings.file` : the file that holds the archive.
-/

namespace SnapshotArchive

open Text

/-- The settings of an archive. -/
structure Settings where
  /-- The directory of the archive. -/
  directory : String
  /-- The name of its file in there. -/
  fileName : String
  writeAhead : Bool
  /-- How long to wait for another client, in milliseconds. -/
  patience : Int
  /-- How much of the file to keep in memory: a number of pages, or a negative number of kilobytes. -/
  cacheSize : Int
  policy : Policy
  logLevel : String
  logFormat : String
  deriving DecidableEq

/-- Why settings cannot be used. -/
inductive SettingFault where
  | notANumeral (text : String)
  | unknownPolicy (word : String)
  | noFileName
  | negativePatience
  | unknownFormat (word : String)
  deriving DecidableEq

/-- The message of a fault. A text that is no numeral is shown in at most 200 characters. -/
def SettingFault.message : SettingFault → String
  | notANumeral text =>
    s!"invalid literal for int() with base 10: {String.ofList ((quoted text).toList.take 200)}"
  | unknownPolicy word => s!"Invalid COPY_NAME_POLICY '{word}'. Must be one of: reject, suffix"
  | noFileName => "DB_FILE must not be empty"
  | negativePatience => "SQLITE_BUSY_TIMEOUT_MS must be >= 0"
  | unknownFormat word => s!"Invalid LOG_FORMAT '{word}'. Must be one of: json, text"

/-- The line that tells of a fault. -/
def SettingFault.line (fault : SettingFault) : String :=
  s!"Configuration error: {fault.message}\n"

/-- The word for a policy. -/
def CopyPolicy.label : CopyPolicy → String
  | reject => "reject"
  | suffix => "suffix"

/-- The policy that a word names. -/
def CopyPolicy.ofLabel? : String → Option CopyPolicy
  | "reject" => some reject
  | "suffix" => some suffix
  | _ => none

namespace Settings

/-! ### Reading the environment -/

/-- Whether a word says yes, in any letter case. -/
def isTrue (word : String) : Bool :=
  lower word = "true"

/-- The whole number of a setting. -/
def numeral (text : String) : Except SettingFault Int :=
  match integer? text with
  | some n => .ok n
  | none => .error (.notANumeral text)

/-- The copy policy of a setting. -/
def copyPolicy (word : String) : Except SettingFault CopyPolicy :=
  match CopyPolicy.ofLabel? (lower word) with
  | some policy => .ok policy
  | none => .error (.unknownPolicy (lower word))

/-- Settings as they stand in an environment; `directory?` takes the place of the directory that
the environment names. -/
def parse (env : String → Option String) (directory? : Option String) :
    Except SettingFault Settings := do
  let get (name default : String) := (env name).getD default
  let patience ← numeral (get "SQLITE_BUSY_TIMEOUT_MS" "5000")
  let cacheSize ← numeral (get "SQLITE_CACHE_SIZE" "-64000")
  let copies ← copyPolicy (get "COPY_NAME_POLICY" "reject")
  return {
    directory := directory?.getD (get "DATA_DIR" "/var/lib/saverestore")
    fileName := get "DB_FILE" "saveandrestore.db"
    writeAhead := isTrue (get "SQLITE_WAL_MODE" "true")
    patience
    cacheSize
    policy := ⟨copies, isTrue (get "GOLDEN_EXCLUSIVE" "false")⟩
    logLevel := get "LOG_LEVEL" "INFO"
    logFormat := get "LOG_FORMAT" "json" }

/-- What is wrong with settings that could be read. -/
def fault? (s : Settings) : Option SettingFault :=
  if s.fileName = "" then some .noFileName
  else if s.patience < 0 then some .negativePatience
  else if s.logFormat ≠ "json" ∧ s.logFormat ≠ "text" then some (.unknownFormat s.logFormat)
  else none

/-- The settings of an environment. -/
def ofEnvironment (env : String → Option String) (directory? : Option String) :
    Except SettingFault Settings := do
  let s ← parse env directory?
  match s.fault? with
  | some fault => throw fault
  | none => return s

/-- What is worth a warning in settings; `found` says whether the directory exists. -/
def warnings (s : Settings) (found : Bool) : List String :=
  (if s.writeAhead then [] else ["SQLite WAL mode disabled, readers will block during writes"]) ++
    (if found then [] else
      [s!"Data directory does not exist: {s.directory}. It will be created on first write."])

/-! ### The file -/

/-- The parts of a file name: its leading slashes, and the names after them. -/
def fileParts (name : String) : String × List String :=
  let cs := name.toList
  let slashes := (cs.takeWhile (· = '/')).length
  let root := if slashes = 0 then "" else if slashes = 2 then "//" else "/"
  (root, (segments cs).filter (· ≠ "."))

/-- The file that holds the archive: the file name in the directory, unless it is absolute. -/
def file (s : Settings) : String :=
  let directory := fileParts s.directory
  let name := fileParts s.fileName
  let (root, names) := if name.1 = "" then (directory.1, directory.2 ++ name.2) else name
  let path := root ++ "/".intercalate names
  if path = "" then "." else path

/-! ### Records -/

/-- The settings that are logged. -/
def logged (s : Settings) : List (String × Value) :=
  [("data_dir", .text s.directory), ("db_file", .text s.fileName), ("wal_mode", .truth s.writeAhead),
    ("copy_name_policy", .text s.policy.copies.label),
    ("golden_exclusive", .truth s.policy.goldenExclusive), ("log_level", .text s.logLevel)]

/-- All settings. -/
def fields (s : Settings) : List (String × Value) :=
  s.logged ++ [("busy_timeout_ms", .whole s.patience), ("cache_size_pages", .whole s.cacheSize),
    ("log_format", .text s.logFormat)]

end Settings

end SnapshotArchive
