import MaterialGraph.Failure
import MaterialGraph.Path
import MaterialGraph.Table

/-!
Named texts that the compiler asks for, the places where they belong, and tables
that hold them.
-/

namespace MaterialGraph

inductive ResourceKind
  | nodeType | nodeCode | shader | fragment
deriving DecidableEq, Inhabited

/-- The path of a resource below the directory of its shader. -/
def ResourceKind.path (kind : ResourceKind) (name : String) : String :=
  match kind with
  | nodeType => Path.join "Nodes" (name ++ ".node")
  | nodeCode => Path.join "Nodes" (name ++ ".code")
  | shader => name ++ ".shader"
  | fragment => name

/-- A source of named texts. A text that does not exist is no failure. -/
structure Resolver where
  resolve : ResourceKind → String → Outcome (Option String)
  /-- Where a resource is or would be, for messages. -/
  place : ResourceKind → String → String

structure ResourceTable where
  nodeTypes : Table String := .empty
  nodeCode : Table String := .empty
  shaders : Table String := .empty
  fragments : Table String := .empty
deriving DecidableEq, Inhabited

namespace ResourceTable

def texts (t : ResourceTable) : ResourceKind → Table String
  | .nodeType => t.nodeTypes
  | .nodeCode => t.nodeCode
  | .shader => t.shaders
  | .fragment => t.fragments

def modify (t : ResourceTable) (kind : ResourceKind) (f : Table String → Table String) :
    ResourceTable :=
  match kind with
  | .nodeType => { t with nodeTypes := f t.nodeTypes }
  | .nodeCode => { t with nodeCode := f t.nodeCode }
  | .shader => { t with shaders := f t.shaders }
  | .fragment => { t with fragments := f t.fragments }

def get? (t : ResourceTable) (kind : ResourceKind) (name : String) : Option String :=
  (t.texts kind).get? name

def contains (t : ResourceTable) (kind : ResourceKind) (name : String) : Bool :=
  (t.get? kind name).isSome

def insert (t : ResourceTable) (kind : ResourceKind) (name text : String) : ResourceTable :=
  t.modify kind (·.insert name text)

def erase (t : ResourceTable) (kind : ResourceKind) (name : String) : ResourceTable :=
  t.modify kind (·.erase name)

def resolver (t : ResourceTable) : Resolver where
  resolve kind name := .ok (t.get? kind name)
  place := ResourceKind.path

end ResourceTable

end MaterialGraph
