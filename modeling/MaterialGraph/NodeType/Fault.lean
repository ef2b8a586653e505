import MaterialGraph.Text.Quoted

/-!
What can be wrong with the description of a node type.
-/

namespace MaterialGraph.NodeType

/-- The type of a pin as a description gives it. -/
inductive TypeTag
  | name (tag : String)
  | index (i : Int)
deriving DecidableEq, Inhabited

def TypeTag.shown : TypeTag → String
  | name tag => "Name(" ++ Text.quote tag ++ ")"
  | index i => "Index(" ++ toString i ++ ")"

inductive Side
  | input | output
deriving DecidableEq, Inhabited

def Side.name : Side → String
  | input => "input"
  | output => "output"

inductive PinFault
  | unknownType (side : Side) (pin : String) (tag : TypeTag)
  | registerOutOfRange (side : Side) (pin : String) (register : Int)
  | notIdentifier (side : Side) (pin : String)
  | negativeRegister (pin : String) (register : Int)
  | reusedRegister (pin : String) (register : Int)
  | severalReturns
  | invalidRegister (pin : String) (register : Int)
  | invalidAlias (name : String)
deriving DecidableEq, Inhabited

def PinFault.message : PinFault → String
  | unknownType side pin tag =>
    side.name ++ " '" ++ pin ++ "' has unknown type " ++ tag.shown
  | registerOutOfRange side pin register =>
    side.name ++ " '" ++ pin ++ "' register " ++ toString register ++ " out of range"
  | notIdentifier side pin => side.name ++ " name '" ++ pin ++ "' is not an identifier"
  | negativeRegister pin register =>
    "input '" ++ pin ++ "' has negative register " ++ toString register
  | reusedRegister pin register => "input '" ++ pin ++ "' reuses register " ++ toString register
  | severalReturns => "more than one output uses the return register"
  | invalidRegister pin register =>
    "output '" ++ pin ++ "' has invalid register " ++ toString register
  | invalidAlias name => "invalid alias '" ++ name ++ "'"

inductive Malformation
  | notJson
  | noOutputs
  | pins (faults : List PinFault)
deriving DecidableEq, Inhabited

def Malformation.message : Malformation → String
  | notJson => "invalid json"
  | noOutputs => "missing required Outputs table"
  | pins faults => "; ".intercalate (faults.map PinFault.message)

end MaterialGraph.NodeType
