/-!
# Help

The page that the program prints when it is asked for help, for itself or for one of its commands.
-/

namespace SnapshotArchive

/-- The page for the program. -/
def programHelp : List String :=
  ["usage: saverestore-admin [-h] [--data-dir DATA_DIR] [--user USER]",
   "                         \x7binit,stats,ls,path,tree,mkdir,mv,cp,rm\x7d ...",
   "",
   "Save & restore tree administration tool",
   "",
   "positional arguments:",
   "  \x7binit,stats,ls,path,tree,mkdir,mv,cp,rm\x7d",
   "    init                Create schema and root folder",
   "    stats               Print record counts",
   "    ls                  List children at a path",
   "    path                Print the full path of a node",
   "    tree                Print the whole tree",
   "    mkdir               Create a folder",
   "    mv                  Move nodes",
   "    cp                  Copy nodes",
   "    rm                  Delete nodes and their subtrees",
   "",
   "options:",
   "  -h, --help            show this help message and exit",
   "  --data-dir DATA_DIR   Database directory (default: $DATA_DIR)",
   "  --user USER           User name recorded on changes"]

/-- The lines that end the page of a command without options of its own. -/
def plainOptions : List String :=
  ["",
   "options:",
   "  -h, --help  show this help message and exit"]

/-- The lines that end the page of a command with a target. -/
def targetOptions : List String :=
  ["",
   "positional arguments:",
   "  node_ids",
   "",
   "options:",
   "  -h, --help            show this help message and exit",
   "  --target TARGET, -t TARGET",
   "                        Target folder id"]

/-- The page for a command. -/
def commandHelp : (word : String) → List String
  | "init" => "usage: saverestore-admin init [-h]" :: plainOptions
  | "stats" => "usage: saverestore-admin stats [-h]" :: plainOptions
  | "ls" =>
    ["usage: saverestore-admin ls [-h] path",
     "",
     "positional arguments:",
     "  path        Absolute path, e.g. /Accelerator"] ++ plainOptions
  | "path" =>
    ["usage: saverestore-admin path [-h] node_id",
     "",
     "positional arguments:",
     "  node_id"] ++ plainOptions
  | "tree" =>
    ["usage: saverestore-admin tree [-h] [--json]",
     "",
     "options:",
     "  -h, --help  show this help message and exit",
     "  --json      Output JSON"]
  | "mkdir" =>
    ["usage: saverestore-admin mkdir [-h] parent_path name",
     "",
     "positional arguments:",
     "  parent_path",
     "  name",
     "",
     "options:",
     "  -h, --help   show this help message and exit"]
  | "mv" =>
    "usage: saverestore-admin mv [-h] --target TARGET node_ids [node_ids ...]" :: targetOptions
  | "cp" =>
    "usage: saverestore-admin cp [-h] --target TARGET node_ids [node_ids ...]" :: targetOptions
  | "rm" =>
    ["usage: saverestore-admin rm [-h] node_ids [node_ids ...]",
     "",
     "positional arguments:",
     "  node_ids"] ++ plainOptions
  | _ => []

/-- The page for a command, or for the program. -/
def helpPage (word : Option String) : String :=
  let lines := match word with
    | some word => commandHelp word
    | none => programHelp
  String.join (lines.map (· ++ "\n"))

end SnapshotArchive
