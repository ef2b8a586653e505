import MaterialGraph.FileTree
import MaterialGraph.Resource.Basic

/-!
Resources in the files below a directory, and files written there.
-/

namespace MaterialGraph.FileTree

/-- Reads a text; the activity is named in a failure. -/
def read (t : FileTree) (activity path : String) : Outcome String :=
  Outcome.ofOption ((Failure.report .io).during (activity ++ " " ++ path)) (t.text? path)

/-- A path that is no file holds no resource; a file that is no text is a failure. -/
def resolver (root : String) (t : FileTree) : Resolver where
  resolve kind name :=
    let path := Path.join root (kind.path name)
    if (t.file? path).isSome then (t.read "failed to read" path).map some else .ok none
  place kind name := Path.join root (kind.path name)

def ensure (t : FileTree) (path : String) : Outcome FileTree :=
  Outcome.ofOption ((Failure.report .io).during ("failed to create " ++ path))
    (t.ensureDirectory? path)

def write (t : FileTree) (path : String) (bytes : List UInt8) : Outcome FileTree :=
  Outcome.ofOption ((Failure.report .io).during ("failed to write " ++ path))
    (t.write? path bytes)

end MaterialGraph.FileTree
