import MaterialGraph.NodeType.Description
import MaterialGraph.Resource.Basic

/-!
Registries of node types. A type is read once, when it is first asked for, and
stays until it is replaced.
-/

namespace MaterialGraph

abbrev Registry := Table NodeType

/-- Activities that fill a registry. What was read before a failure stays. -/
abbrev Loading := ExceptT Failure (StateM Registry)

namespace Registry

def put (r : Registry) (type : NodeType) : Registry :=
  r.insert type.name type

/-- Reads the description of a type. -/
def fetch (resolver : Resolver) (name : String) : Outcome NodeType := do
  match ← resolver.resolve .nodeType name with
  | none => .error (.compile (.unknownNodeType name (resolver.place .nodeType name)))
  | some text =>
    Outcome.during (resolver.place .nodeType name)
      ((NodeType.parse name text).mapError Failure.compile)

def load (resolver : Resolver) (name : String) : Loading NodeType := do
  match (← get).get? name with
  | some type => return type
  | none =>
    let type ← ExceptT.mk (pure (fetch resolver name))
    modify (put · type)
    return type

end Registry

namespace Loading

def during {α : Type} (activity : String) (x : Loading α) : Loading α :=
  ExceptT.adapt (Failure.during activity) x

def ofOutcome {α : Type} (r : Outcome α) : Loading α :=
  ExceptT.mk (pure r)

end Loading

end MaterialGraph
