import SnapshotArchive.Arguments
import SnapshotArchive.Command.Help
import SnapshotArchive.Outline
import SnapshotArchive.Settings
import SnapshotArchive.Value

/-!
# Commands

The administration of an archive from a command line: listings of the tree, and the structural
operations on nodes. A command is one call; its answer is what it prints.

* `Invocation.parse` : the command that arguments ask for.
* `Command.call` : the call of a command.
* `Invocation.execute` : what a command does to an archive, and what it ends with.
-/

namespace SnapshotArchive

/-- The commands. -/
inductive Command where
  | initialise
  | stats
  | list (path : String)
  | locate (id : Id)
  | tree (asDocument : Bool)
  | makeFolder (parentPath name : String)
  | move (ids : List Id) (target : Id)
  | copy (ids : List Id) (target : Id)
  | delete (ids : List Id)
  deriving DecidableEq

/-- A command with the options that every command has. -/
structure Invocation where
  directory : Option String
  user : Option String
  command : Command

/-! ### Arguments -/

/-- The option that asks for help. -/
def helpOption : OptionRule := ⟨["--help", "-h"], .help⟩

/-- The arguments of the program: options, and a command with its arguments. -/
def programGrammar : Grammar :=
  ⟨[helpOption, ⟨["--data-dir"], .valued⟩, ⟨["--user"], .valued⟩], [.remainder]⟩

namespace Command

/-- The arguments of a command, by its word. -/
def grammar? (word : String) : Option Grammar :=
  let grammar (options : List OptionRule) (operands : List Arity) : Option Grammar :=
    some ⟨helpOption :: options, operands⟩
  let target : OptionRule := ⟨["--target", "-t"], .valued⟩
  match word with
  | "init" => grammar [] []
  | "stats" => grammar [] []
  | "ls" => grammar [] [.one]
  | "path" => grammar [] [.one]
  | "tree" => grammar [⟨["--json"], .flag⟩] []
  | "mkdir" => grammar [] [.one, .one]
  | "mv" => grammar [target] [.atLeastOne]
  | "cp" => grammar [target] [.atLeastOne]
  | "rm" => grammar [] [.atLeastOne]
  | _ => none

/-- The command with a word and its arguments. -/
def ofParsed? (word : String) (p : Parsed) : Option Command :=
  match word, p.operands, p.value? "--target" with
  | "init", _, _ => some initialise
  | "stats", _, _ => some stats
  | "ls", [[path]], _ => some (list path)
  | "path", [[id]], _ => some (locate id)
  | "tree", _, _ => some (tree (p.has "--json"))
  | "mkdir", [[parentPath], [name]], _ => some (makeFolder parentPath name)
  | "mv", [ids], some target => some (move ids target)
  | "cp", [ids], some target => some (copy ids target)
  | "rm", [ids], _ => some (delete ids)
  | _, _, _ => none

end Command

/-- Why arguments ask for no command, and the word of the command that help is asked for. -/
structure NoInvocation where
  halt : Halt
  word : Option String
  deriving DecidableEq

/-- What the arguments of the program ask for. -/
def Invocation.parse (arguments : List String) : Except NoInvocation Invocation :=
  let usage := NoInvocation.mk .usage none
  match programGrammar.parse arguments with
  | .error halt => .error ⟨halt, none⟩
  | .ok top =>
    match top.operands with
    | [word :: rest] =>
      match Command.grammar? word with
      | none => .error usage
      | some g =>
        match g.parse rest with
        | .error halt => .error ⟨halt, word⟩
        | .ok p =>
          match Command.ofParsed? word p with
          | some command =>
            if top.isLong || p.isLong || p.isShort then .error usage
            else .ok ⟨top.value? "--data-dir", top.value? "--user", command⟩
          | none => .error usage
    | _ => .error usage

/-- The settings of a command; a directory among its options goes before that of the
environment. -/
def Invocation.settings (i : Invocation) (env : String → Option String) :
    Except SettingFault Settings :=
  Settings.ofEnvironment env (i.directory.filter (· ≠ ""))

/-- The user that a command acts for. -/
def Invocation.author (i : Invocation) (default : String) : String :=
  (i.user.filter (· ≠ "")).getD default

/-! ### Calls -/

namespace Command

/-- Several lines. -/
def unlines (lines : List String) : String :=
  "\n".intercalate lines

/-- The lines for the children of every node at a path. -/
def listing (s : Store) (path : String) : Except Failure String := do
  let found ← s.resolve path
  ensure (found ≠ []) (.nothingAt path)
  return unlines ((found.flatMap fun n => s.children n.id).map Node.line)

/-- The whole tree, as indented lines or as nested records. -/
def rendering (s : Store) (asDocument : Bool) : Except Failure String := do
  let t ← s.tree
  return if asDocument then (t.record fun _ => []).pretty else unlines (t.lines 0)

/-- Creates a folder below the folder at a path. -/
def makeFolderAt (c : Context) (user : String) (parentPath name : String) : Write Node := fun s => do
  let found ← s.resolve parentPath
  match found.find? (·.kind = .folder) with
  | some folder =>
    let form : NodeForm :=
      ⟨"", none, name, .folder, .empty, 0, 0, "", 0⟩
    createNode c folder.id form user s
  | none => throw (.refused (.noFolderAt parentPath))

/-- Ends a write to a node with a line that names the path the node then has. -/
def thenPath (line : String → String) (w : Write Node) : Write (Except Failure String) := fun s =>
  (w s).map fun t s => (t s).map fun (n, s) => ((s.fullPath n.id).map line, s)

/-- The call of a command by a user, in an archive with the given settings. What it prints can fail
to be found after its transaction has ended. -/
def call (c : Context) (settings : Settings) (user : String) :
    Command → Call (Except Failure String)
  | initialise => .initialise c.now fun _ => .ok s!"Initialized {settings.file}"
  | stats =>
    let line (e : String × Nat) := s!"{e.1}: {e.2}"
    .read fun a => a.read fun s => .ok (.ok (unlines (s.stats.entries.map line)))
  | list path => .read fun a => a.read fun s => (listing s path).map .ok
  | locate id => .read fun a => a.read fun s => (s.fullPath id).map .ok
  | tree asDocument => .read fun a => a.read fun s => (rendering s asDocument).map .ok
  | makeFolder parentPath name =>
    .write ((makeFolderAt c user parentPath name).map fun n => .ok n.id)
  | move ids target =>
    let line (path : String) := s!"Moved {ids.length} node(s) to {path}"
    .write (thenPath line (moveNodes c ids target user))
  | copy ids target =>
    let line (path : String) := s!"Copied {ids.length} node(s) to {path}"
    .write (thenPath line (copyNodes c settings.policy.copies ids target user))
  | delete ids => .write ((deleteNodes ids).map fun n => .ok s!"Deleted {n} node(s)")

end Command

/-! ### Outcomes -/

/-- What a command leaves behind: an exit code and two texts. -/
structure Outcome where
  exit : Nat
  output : String
  errors : String
  deriving DecidableEq

namespace Outcome

/-- The outcome of arguments that ask for no command: the page asked for, or how the program is
used. -/
def ofHalt : NoInvocation → Outcome
  | ⟨.help, word⟩ => ⟨0, helpPage word, ""⟩
  | ⟨.usage, _⟩ => ⟨2, "", helpPage none⟩

/-- The outcome of settings that cannot be used. -/
def misconfigured (fault : SettingFault) : Outcome :=
  ⟨1, "", fault.line⟩

/-- The outcome with which a text is printed. -/
def printing (text : String) : Outcome :=
  ⟨0, if text = "" then "" else text ++ "\n", ""⟩

/-- The outcome of a call. A refusal is told; any other failure is not the user's. -/
def ofResult (result : Except Failure (Except Failure String)) : Except Failure Outcome :=
  match result.bind id with
  | .ok text => .ok (printing text)
  | .error (.refused r) => .ok ⟨1, "", s!"Error [{r.category.code}]: {r.message}\n"⟩
  | .error f => .error f

/-- The outcome of a call that may fail in any way. -/
def ofAnyResult (result : Except Failure (Except Failure String)) : Outcome :=
  match ofResult result with
  | .ok outcome => outcome
  | .error f => ⟨1, "", f.message ++ "\n"⟩

end Outcome

/-! ### Whole runs -/

namespace Invocation

/-- The command that arguments ask for, with the settings for it, or the outcome if there is
none. -/
def prepare (env : String → Option String) (arguments : List String) :
    Except Outcome (Invocation × Settings) :=
  match parse arguments with
  | .error halt => .error (.ofHalt halt)
  | .ok i =>
    match i.settings env with
    | .error fault => .error (.misconfigured fault)
    | .ok settings => .ok (i, settings)

/-- Carries a command out on an archive that nobody else uses. -/
def execute (i : Invocation) (settings : Settings) (default : String) (c : Context) (a : Archive) :
    Outcome × Archive :=
  let a := (a.connect settings.writeAhead .nothing).toOption.getD a
  let (result, a) := a.run .nothing id (i.command.call c settings (i.author default))
  (.ofAnyResult result, a)

end Invocation

end SnapshotArchive
