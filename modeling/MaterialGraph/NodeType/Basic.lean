import MaterialGraph.BasicType

/-!
Node types: the templates that nodes of a shader graph instantiate. Pins have
registers, which order the arguments of a call; one register is reserved for
the output that a call returns.
-/

namespace MaterialGraph

structure Pin where
  name : String
  type : BasicType
  /-- The output field that the pin feeds, for the reader of a description. -/
  semantic : Option String
  register : Int
deriving DecidableEq, Inhabited

/-- The register of the output that a call returns. -/
def returnRegister : Int := -1

structure NodeType where
  name : String
  inputs : List Pin
  outputs : List Pin
  /-- The function that is called in place of one of the type's own. -/
  aliasName : Option String
deriving DecidableEq, Inhabited

namespace NodeType

def findInput? (t : NodeType) (name : String) : Option Nat :=
  t.inputs.findIdx? fun p => p.name == name

def findOutput? (t : NodeType) (name : String) : Option Nat :=
  t.outputs.findIdx? fun p => p.name == name

def findOutputRegister? (t : NodeType) (register : Int) : Option Nat :=
  t.outputs.findIdx? fun p => p.register == register

/-- The function that a node of the type calls. -/
def function (t : NodeType) : String :=
  t.aliasName.getD t.name

end NodeType

end MaterialGraph
