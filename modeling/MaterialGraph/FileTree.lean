import MaterialGraph.Path
import MaterialGraph.Text.Utf8

/-!
Trees of files and directories with a working directory. A path is resolved part
by part, and every part but the last has to lead to a directory.
-/

namespace MaterialGraph

inductive FileEntry
  | directory
  | file (bytes : List UInt8)
deriving DecidableEq, Inhabited

/-- Entries by the names that lead to them from the root, which is a directory. -/
structure FileTree where
  working : List String
  entries : List (List String × FileEntry)
deriving DecidableEq, Inhabited

namespace FileTree

def entry? (t : FileTree) (location : List String) : Option FileEntry :=
  if location.isEmpty then some .directory else t.entries.lookup location

def set (t : FileTree) (location : List String) (e : FileEntry) : FileTree :=
  if t.entries.any (·.1 == location) then
    { t with entries := t.entries.map fun x => if x.1 == location then (location, e) else x }
  else { t with entries := t.entries ++ [(location, e)] }

/-- Why a path leads nowhere, or cannot be made to lead to a new directory. -/
inductive Obstacle
  | missing | notDirectory | badName | occupied
deriving DecidableEq, Inhabited

/-- Names are at most 255 bytes long and free of the null character. -/
def isName (part : String) : Bool :=
  part.utf8ByteSize ≤ 255 && !part.toList.contains '\x00'

/-- Follows parts from a location. The location reached need not exist, but the
one before it is a directory. -/
def follow (t : FileTree) (location : List String) : List String → Except Obstacle (List String)
  | [] => .ok location
  | part :: rest =>
    match t.entry? location with
    | none => .error .missing
    | some (.file _) => .error .notDirectory
    | some .directory =>
      if part = "" ∨ part = "." then t.follow location rest
      else if part = ".." then t.follow location.dropLast rest
      else if isName part then t.follow (location ++ [part]) rest
      else .error .badName

/-- Paths are shorter than 4096 bytes. -/
def locate (t : FileTree) (path : String) : Except Obstacle (List String) :=
  if path.isEmpty then .error .missing
  else if 4096 ≤ path.utf8ByteSize then .error .badName
  else t.follow (if Path.isAbsolute path then [] else t.working) (Path.parts path)

def find? (t : FileTree) (path : String) : Option FileEntry :=
  match t.locate path with
  | .ok location => t.entry? location
  | .error _ => none

def isDirectory (t : FileTree) (path : String) : Bool :=
  t.find? path == some .directory

def file? (t : FileTree) (path : String) : Option (List UInt8) :=
  match t.find? path with
  | some (.file bytes) => some bytes
  | _ => none

/-- The text of a file that holds one. -/
def text? (t : FileTree) (path : String) : Option String :=
  (t.file? path).bind Text.ofBytes?

/-- Creates or replaces a file in a directory that exists. -/
def write? (t : FileTree) (path : String) (bytes : List UInt8) : Option FileTree :=
  match t.locate path with
  | .error _ => none
  | .ok location =>
    if t.entry? location = some .directory then none else some (t.set location (.file bytes))

private def dropSlashes (path : String) : String :=
  String.ofList (path.toList.reverse.dropWhile (· == '/')).reverse

/-- Creates one directory; nothing may be there yet. -/
def makeDirectory (t : FileTree) (path : String) : Except Obstacle FileTree := do
  let location ← t.locate (dropSlashes path)
  match t.entry? location with
  | some _ => .error .occupied
  | none => .ok (t.set location .directory)

/-- Creates the first of some directories, given innermost first, and before it
those of the others that are missing. -/
def makeDirectories? (t : FileTree) : List String → Option FileTree
  | [] => some t
  | path :: outer =>
    match t.makeDirectory path with
    | .ok t' => some t'
    | .error .missing =>
      match t.makeDirectories? outer with
      | none => none
      | some t' =>
        match t'.makeDirectory path with
        | .ok t'' => some t''
        | .error _ => if t'.isDirectory path then some t' else none
    | .error _ => if t.isDirectory path then some t else none

/-- Makes sure that a directory exists, with the directories around it. The
working directory and the root always exist. -/
def ensureDirectory? (t : FileTree) (path : String) : Option FileTree :=
  if (Path.enclosing path).isEmpty then some t else t.makeDirectories? (Path.ancestors path)

/-- The files below the working directory, by their names from there. -/
def workingFiles (t : FileTree) : List (String × List UInt8) :=
  t.entries.filterMap fun (location, e) =>
    match e with
    | .directory => none
    | .file bytes =>
      if location.take t.working.length = t.working then
        some ("/".intercalate (location.drop t.working.length), bytes)
      else none

/-- The entries that an earlier tree lacks or holds with other content. Directories
come before what they hold. -/
def changes (t before : FileTree) : List (List String × FileEntry) :=
  t.entries.filter fun e => before.entries.lookup e.1 != some e.2

/-- The files below the working directory that an earlier tree lacks or holds
with other content. -/
def changedSince (t before : FileTree) : List (String × List UInt8) :=
  t.workingFiles.filter fun f => before.workingFiles.lookup f.1 != some f.2

end FileTree

end MaterialGraph
