import MaterialGraph.CommandLine.Run

/-!
The command line program. It takes up the files around the inputs that its options
name, runs on them, and writes what the run adds or changes.
-/

namespace MaterialGraph.Program

open CommandLine

/-- The names that lead from the root to something that exists. -/
def locate (path : String) : IO (List String) := do
  return (Path.parts (toString (← IO.FS.realPath path))).filter (· != "")

def absolute (location : List String) : String :=
  "/" ++ "/".intercalate location

/-- Adds a file or directory with all that it holds. What cannot be read is left out. -/
partial def addBelow (location : List String) (t : FileTree) : IO FileTree :=
  try
    let here ← IO.FS.realPath (absolute location)
    if ← here.isDir then
      (← here.readDir).foldlM (fun t e => addBelow (location ++ [e.fileName]) t)
        (t.set location .directory)
    else
      return t.set location (.file (← IO.FS.readBinFile here).data.toList)
  catch _ => return t

/-- Adds what a path leads to, below the directories around it. -/
def addPath (t : FileTree) (path : String) : IO FileTree :=
  try
    let location ← locate path
    let around := ((List.range location.length).drop 1).map fun n => location.take n
    addBelow location (around.foldl (fun t l => t.set l .directory) t)
  catch _ => return t

/-- The paths that a run may read from or write to. -/
def inputs (o : Options) : List String :=
  "." :: o.shader.toList ++ (o.shader.map (resourceRoot o)).toList ++ o.material.toList ++
    o.config.toList ++ o.outputDir.toList

def writeEntry : List String × FileEntry → IO Unit
  | (location, .directory) => IO.FS.createDirAll (absolute location)
  | (location, .file bytes) => IO.FS.writeBinFile (absolute location) ⟨bytes.toArray⟩

def execute (o : Options) : IO (Outcome Unit) := do
  let before ← (inputs o).foldlM addPath ⟨← locate ".", []⟩
  let (result, after) := (run none o).run before
  (after.changes before).forM writeEntry
  return result

end MaterialGraph.Program

open MaterialGraph in
def main (arguments : List String) : IO UInt32 := do
  let result ← match CommandLine.Options.parse arguments with
    | .error e => pure (.error (.fault e))
    | .ok o => Program.execute o
  match result with
  | .ok () => return 0
  | .error failure =>
    IO.eprintln (failure.message?.getD "unreadable input")
    return 1
