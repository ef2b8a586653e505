import MaterialGraph.BasicType

/-!
Bodies of shader functions: declarations of temporaries, calls of node functions
and assignments to the fields of the result.
-/

namespace MaterialGraph

inductive Operand
  | temp (n : Nat)
  /-- Shader text that stands for a value of its own. -/
  | text (s : String)
deriving DecidableEq, Inhabited

/-- An argument of a call passes a value in or takes a value out. -/
inductive Argument
  | input (value : Operand)
  | output (temp : Nat)
deriving DecidableEq, Inhabited

structure Call where
  /-- The temporary that takes the returned value. -/
  result : Option Nat
  function : String
  /-- A function of the node type's own takes the globals as well. -/
  own : Bool
  /-- The arguments with their registers, in ascending order of the registers. -/
  arguments : List (Int × Argument)
deriving DecidableEq, Inhabited

inductive Field
  | color | colorXyz | colorW | depth
deriving DecidableEq, Inhabited

inductive Statement
  | declare (type : BasicType) (temp : Nat)
  | call (c : Call)
  | assign (field : Field) (value : Operand)
deriving DecidableEq, Inhabited

abbrev Body := List Statement

/-- Temporaries are numbered with at least three digits. -/
def tempName (n : Nat) : String :=
  String.ofList ('r' :: (Nat.toDigits 10 n).leftpad 3 '0')

def Operand.render : Operand → String
  | temp n => tempName n
  | text s => s

def Argument.render : Argument → String
  | input value => value.render
  | output n => tempName n

def Call.render (c : Call) : String :=
  (c.result.elim "" fun n => tempName n ++ " = ") ++ c.function ++ "(" ++
    ", ".intercalate (c.arguments.map fun a => a.2.render) ++
    (if c.own then " P_GLOBALS);" else ");")

def Field.name : Field → String
  | color => "color"
  | colorXyz => "color.xyz"
  | colorW => "color.w"
  | depth => "depth"

def Statement.render : Statement → String
  | declare type n => "\t" ++ type.name ++ " " ++ tempName n ++ ";\r\n"
  | call c => "\t" ++ c.render ++ "\r\n"
  | assign field value => "\tR." ++ field.name ++ " = " ++ value.render ++ ";\r\n"

/-- The function of a given name with the body. -/
def Body.render (entry : String) (b : Body) : String :=
  "M " ++ entry ++ "(VOID_GLOBALS)\r\n\x7b\r\n\tM R;\r\n" ++ String.join (b.map Statement.render) ++
    "\treturn R;\r\n\x7d\r\n"

end MaterialGraph
