/-!
Precision modes of a shader and of its samplers.
-/

namespace MaterialGraph

inductive Precision
  | low | medium | high
deriving DecidableEq, Inhabited

namespace Precision

def all : List Precision :=
  [low, medium, high]

/-- The name of a mode in documents. -/
def name : Precision → String
  | low => "low"
  | medium => "medium"
  | high => "high"

def ofName? (s : String) : Option Precision :=
  all.find? fun p => p.name == s

/-- The name of a mode in defines. -/
def defineSuffix : Precision → String
  | low => "LOW"
  | medium => "MEDIUM"
  | high => "HIGH"

/-- The scalar type that the mode computes with. -/
def scalarFamily : Precision → String
  | low => "FIXED"
  | medium => "HALF"
  | high => "FLOAT"

def qualifier : Precision → String
  | low => "lowp"
  | medium => "mediump"
  | high => "highp"

end Precision

end MaterialGraph
