/-!
Textual paths. Parts are separated by slashes; empty parts and dots count for
nothing, apart from a dot that a path starts with.
-/

namespace MaterialGraph.Path

def isAbsolute (p : String) : Bool :=
  p.toList.head? == some '/'

/-- An absolute name replaces the directory. -/
def join (dir name : String) : String :=
  if isAbsolute name || dir.isEmpty || dir.toList.getLast? == some '/' then
    if isAbsolute name then name else dir ++ name
  else dir ++ "/" ++ name

def root (p : String) : String :=
  if isAbsolute p then "/" else ""

/-- The parts behind the root. -/
def parts (p : String) : List String :=
  let all := (p.toList.splitOn '/').map String.ofList
  if isAbsolute p then all.drop 1 else all

/-- Whether the last of some parts, given last first, counts. -/
def counts (absolute : Bool) (part : String) (earlier : List String) : Bool :=
  part != "" && (part != "." || (earlier.isEmpty && !absolute))

/-- The texts of the paths that end in a part that counts, longest first, for
parts given last first. -/
def enclosingParts (p : String) : List String → List String
  | [] => []
  | part :: earlier =>
    let longer := enclosingParts p earlier
    if counts (isAbsolute p) part earlier then
      (root p ++ "/".intercalate (part :: earlier).reverse) :: longer
    else longer

def enclosing (p : String) : List String :=
  enclosingParts p (parts p).reverse

/-- The path without its last part, if there is one to drop. -/
def parent? (p : String) : Option String :=
  match enclosing p with
  | [] => none
  | [_] => some (root p)
  | _ :: q :: _ => some q

/-- A path with the paths of the directories around it, innermost first. -/
def ancestors (p : String) : List String :=
  p :: (enclosing p).drop 1

end MaterialGraph.Path
