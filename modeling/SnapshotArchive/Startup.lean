import SnapshotArchive.Settings
import SnapshotArchive.Record

/-!
# Starting up

A server that starts initialises its archive and logs what it found: warnings about its settings,
the settings, and the number of records. What passes the configured level is written.
-/

namespace SnapshotArchive

open Text

/-- The version of the program. -/
def version : String := "0.1.0"

/-! ### Logging -/

/-- The ranks of the named log levels. -/
def logLevels : List (String × Nat) :=
  [("CRITICAL", 50), ("FATAL", 50), ("ERROR", 40), ("WARNING", 30), ("WARN", 30), ("INFO", 20),
    ("DEBUG", 10), ("NOTSET", 0)]

/-- The rank of a log level, in any letter case; an unknown one counts as `INFO`. -/
def logRank (level : String) : Nat :=
  (logLevels.lookup (upperPlain level)).getD 20

/-- Whether log records are written as documents. -/
def logsDocuments (format : String) : Bool :=
  format = "json"

/-- A log record. -/
structure LogRecord where
  level : String
  message : String
  extra : List (String × Value)

/-- The log records that pass the configured level. -/
def LogRecord.passing (configured : String) (records : List LogRecord) : List LogRecord :=
  records.filter fun r => logRank configured ≤ logRank r.level

/-! ### The log of a start -/

/-- The version of the tables. -/
def tablesVersion : Nat := 1

/-- The log of a start; `found` says whether the directory was there, `made` whether the root had to
be made, and the counts are those at the end. -/
def startupLog (s : Settings) (found made : Bool) (stats : Stats) : List LogRecord :=
  (s.warnings found).map (⟨"WARNING", ·, []⟩) ++
    [⟨"INFO", "Engine configuration loaded", s.logged⟩] ++
    (if made then [⟨"INFO", "Created root node", [("node_id", .text rootId)]⟩] else []) ++
    [⟨"INFO", s!"Initialized save & restore database: {s.file}",
        [("schema_version", .whole tablesVersion)]⟩,
      ⟨"INFO", "Save & restore database ready", stats.entries.map fun e => (e.1, .whole e.2)⟩]

/-! ### Outcomes -/

/-- What a start leaves behind: an exit code, a text and a log. -/
structure Startup where
  exit : Nat
  errors : String
  log : List LogRecord

namespace Startup

/-- A start with settings that cannot be used. -/
def misconfigured (fault : SettingFault) : Startup :=
  ⟨1, fault.line, []⟩

/-- The call of a start. It is answered with whether the root had to be made. -/
def call (now : Int) : Call Bool := .initialise now id

/-- The end of a start, in an archive that was initialised. -/
def ofArchive (s : Settings) (found made : Bool) (a : Archive) : Except Failure Startup := do
  let stats ← a.read fun store => .ok store.stats
  return ⟨0, "", LogRecord.passing s.logLevel (startupLog s found made stats)⟩

end Startup

end SnapshotArchive
