import MaterialGraph.Resource.Basic
import MaterialGraph.Stage
import MaterialGraph.Text.Blank
import MaterialGraph.Text.Line

/-!
Include directives. A line that names a fragment is replaced by the text of the
fragment, in which directives are not looked for. One name stands for the
material text, which belongs to the fragment stage alone.
-/

namespace MaterialGraph

namespace Include

/-- The name that stands for the material text. -/
def materialName : String := "material"

/-- What follows a head that a text starts with. -/
def after? : List Char → List Char → Option (List Char)
  | [], s => some s
  | h :: head, c :: s => if h = c then after? head s else none
  | _ :: _, [] => none

/-- The name between the quotes of a directive. -/
def unquote? : List Char → Option (List Char)
  | '"' :: body => if body.getLast? = some '"' then some body.dropLast else none
  | _ => none

/-- The name that a line includes, if it is a directive. -/
def target? (line : List Char) : Option String :=
  match after? "#include".toList (Text.trim line) with
  | none => none
  | some rest => (unquote? (Text.trim rest)).map String.ofList

/-- An included text ends its last line. -/
def closeLine (text : String) : List Char :=
  if text.toList.getLast? = some '\n' then text.toList else text.toList ++ ['\r', '\n']

structure Expansion where
  text : List Char := []
  /-- Whether the material text is included. -/
  sawMaterial : Bool := false
deriving DecidableEq, Inhabited

/-- What stands for one line. -/
def expandLine (resolver : Resolver) (stage : Stage) (material : String) (line : List Char) :
    Outcome Expansion :=
  match target? line with
  | none => .ok ⟨line, false⟩
  | some name =>
    if name = materialName then
      .ok ⟨match stage with
        | .vertex => []
        | .fragment => material.toList, true⟩
    else do
      match ← resolver.resolve .fragment name with
      | none => .error (.compile (.missingInclude name))
      | some text => .ok ⟨closeLine text, false⟩

def expandLines (resolver : Resolver) (stage : Stage) (material : String) :
    List (List Char) → Outcome Expansion
  | [] => .ok {}
  | line :: rest => do
    let first ← expandLine resolver stage material line
    let others ← expandLines resolver stage material rest
    .ok ⟨first.text ++ others.text, first.sawMaterial || others.sawMaterial⟩

def expand (resolver : Resolver) (stage : Stage) (material text : String) : Outcome Expansion :=
  expandLines resolver stage material (Text.lines text.toList)

end Include

end MaterialGraph
