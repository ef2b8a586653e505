import MaterialGraph.NodeType.Basic
import MaterialGraph.Resource.Basic

/-!
The functions that the bodies of a shader call. A node type without an alias has
a function of its own, whose code is a resource.
-/

namespace MaterialGraph.Body

/-- The code of the types' own functions, in the order of the types' names. -/
def library (resolver : Resolver) : List (String × NodeType) → Outcome String
  | [] => .ok ""
  | (name, type) :: rest =>
    if type.aliasName.isSome then library resolver rest
    else do
      match ← resolver.resolve .nodeCode name with
      | none => .error (.compile (.missingInclude (resolver.place .nodeCode name)))
      | some code =>
        let functions ← library resolver rest
        .ok ("// Nodes/" ++ name ++ ".code\r\n" ++ code ++ "\r\n" ++ functions)

end MaterialGraph.Body
