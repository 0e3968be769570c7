import SnapshotArchive.Command
import SnapshotArchive.Store.Document
import Std.Time

/-!
# The program

Runs one command on the archive in a file. This is the only place that reads the environment, the
clock and files.
-/

namespace SnapshotArchive

/-- The variables of the environment that the program reads. -/
def settingNames : List String :=
  ["DATA_DIR", "DB_FILE", "SQLITE_WAL_MODE", "SQLITE_BUSY_TIMEOUT_MS", "SQLITE_CACHE_SIZE",
    "COPY_NAME_POLICY", "GOLDEN_EXCLUSIVE", "LOG_LEVEL", "LOG_FORMAT"]

/-- The variables that may name the user. -/
def userNames : List String := ["LOGNAME", "USER", "LNAME", "USERNAME"]

/-- The variables of the environment that are set. -/
def environment (names : List String) : IO (List (String × String)) :=
  names.filterMapM fun name => do
    return (← IO.getEnv name).map (name, ·)

/-- An identifier made of a random number: groups of hexadecimal digits. -/
def randomId (n : Nat) : Id :=
  let digits := Text.hexDigits 32 n
  let group (start length : Nat) := String.ofList ((digits.drop start).take length)
  "-".intercalate [group 0 8, group 8 4, group 12 4, group 16 4, group 20 12]

/-- The time in milliseconds, and a supply of identifiers. -/
def surroundings : IO Context := do
  let now ← Std.Time.Timestamp.now
  let bytes ← IO.getRandomBytes 16
  let seed := bytes.foldl (fun n b => 256 * n + b.toNat) 0
  return ⟨now.toMillisecondsSinceUnixEpoch.val, fun k => randomId (seed + k)⟩

/-- The archive in a file. -/
def load (file : String) : IO Archive := do
  match ← (IO.FS.readFile file).toBaseIO with
  | .ok text =>
    match Archive.ofText? text with
    | some a => return a
    | none => throw (IO.userError s!"{file} is not an archive")
  | .error _ => return .blank

/-- The outcome of a run of the program, which changes the archive in the file of its settings. -/
def runProgram (arguments : List String) : IO Outcome := do
  let env ← environment settingNames
  match Invocation.prepare (fun name => env.lookup name) arguments with
  | .error outcome => return outcome
  | .ok (i, settings) =>
    let names ← environment userNames
    let default := (names.head?.map (·.2)).getD "admin"
    let (outcome, a) := i.execute settings default (← surroundings) (← load settings.file)
    IO.FS.createDirAll settings.directory
    IO.FS.writeFile settings.file a.toText
    return outcome

end SnapshotArchive

/-- Runs the program. -/
def main (arguments : List String) : IO UInt32 := do
  let outcome ← SnapshotArchive.runProgram arguments
  IO.print outcome.output
  IO.eprint outcome.errors
  return outcome.exit.toUInt32
