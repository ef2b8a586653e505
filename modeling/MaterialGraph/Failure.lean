import MaterialGraph.CompileError

/-!
Failures: a cause together with what was being done when it arose. A message
lists the activities from the outermost one to the cause. Causes that are
reported by a reader or by the file system have no text of their own.
-/

namespace MaterialGraph

inductive DocumentFault
  | unknownPass (name : String)
  | samplerKey (key : String)
deriving DecidableEq, Inhabited

def DocumentFault.message : DocumentFault → String
  | unknownPass name => "unknown pass '" ++ name ++ "'"
  | samplerKey key => "samplerPrecision key '" ++ key ++ "' is not a texture index"

/-- Faults outside the taxonomy of compile errors. -/
inductive Fault
  | nodeNotFound (node : Nat)
  | noSuchInput (node : String) (input : Nat)
  | noSuchOutput (node : String) (output : Nat)
  | invalidDocument (shader : String) (faults : List DocumentFault)
  | limitOutOfRange (limit : String) (value : Nat)
  | noPasses (shader : String)
  | noSuchPass (shader : String) (pass : Pass)
  | shaderNotFound (shader place : String)
  | unmappedLeaf (leaf : Leaf)
  | usedBeforeEmission (node : String)
  | outputNotEmitted (output : Output)
  | mappingTooLarge (textures attributes registers : Nat)
  | textureTag (tag : UInt8)
  | streamTag (tag : UInt8)
  | truncated (position : Nat)
  | unterminatedText
  | passIndex (index : UInt8)
  | trailingBytes (count : Nat)
  | missingValue (flag : String)
  | unknownArgument (argument usage : String)
  | shaderRequired (usage : String)
deriving DecidableEq, Inhabited

def Fault.message : Fault → String
  | nodeNotFound node => "node not found: NodeId(" ++ toString node ++ ")"
  | noSuchInput node input => "node " ++ node ++ " has no input #" ++ toString input
  | noSuchOutput node output => "node " ++ node ++ " has no output #" ++ toString output
  | invalidDocument shader faults =>
    "shader '" ++ shader ++ "' failed validation (" ++ toString faults.length ++
      " error(s)):\n- " ++ "\n- ".intercalate (faults.map DocumentFault.message)
  | limitOutOfRange limit value =>
    "limits." ++ limit ++ " must be in 1..=254, got " ++ toString value
  | noPasses shader => "shader '" ++ shader ++ "' does not define any pass"
  | noSuchPass shader pass => "shader '" ++ shader ++ "' has no pass " ++ pass.name
  | shaderNotFound shader place =>
    "failed to load shader '" ++ shader ++ "' (" ++ place ++ " not found)"
  | unmappedLeaf leaf => leaf.source.title ++ " " ++ toString leaf.index ++ " has no mapped slot"
  | usedBeforeEmission node => "output of '" ++ node ++ "' used before emission"
  | outputNotEmitted output => "output slot " ++ output.key ++ " was not emitted"
  | mappingTooLarge textures attributes registers =>
    "mapping does not fit the wire layout (" ++ toString textures ++ " textures, " ++
      toString attributes ++ " attributes, " ++ toString registers ++ " tc registers)"
  | textureTag tag => "invalid texture source tag " ++ toString tag
  | streamTag tag => "invalid geometry source tag " ++ toString tag
  | truncated position => "cooked shader truncated at byte " ++ toString position
  | unterminatedText => "cooked shader text is not NUL terminated"
  | passIndex index => "invalid pass index " ++ toString index
  | trailingBytes count => toString count ++ " trailing byte(s) after cooked shader"
  | missingValue flag => "missing value for " ++ flag
  | unknownArgument argument usage => "unknown argument: " ++ argument ++ " (" ++ usage ++ ")"
  | shaderRequired usage => "--shader <doc.json> is required (" ++ usage ++ ")"

/-- Reports whose text belongs to a reader or to the file system. -/
inductive Report
  | json | io | utf8 | byteRange
deriving DecidableEq, Inhabited

inductive Cause
  | compile (error : CompileError)
  | fault (fault : Fault)
  | report (report : Report)
deriving DecidableEq, Inhabited

structure Failure where
  /-- What was being done, outermost first. -/
  activities : List String
  cause : Cause
deriving DecidableEq, Inhabited

namespace Failure

def compile (error : CompileError) : Failure :=
  ⟨[], .compile error⟩

def fault (fault : Fault) : Failure :=
  ⟨[], .fault fault⟩

def report (report : Report) : Failure :=
  ⟨[], .report report⟩

def during (activity : String) (f : Failure) : Failure :=
  ⟨activity :: f.activities, f.cause⟩

def causeText : Cause → List String
  | .compile e => [e.message]
  | .fault e => [e.message]
  | .report _ => []

/-- Absent for a report that arose during nothing in particular. -/
def message? (f : Failure) : Option String :=
  match f.activities ++ causeText f.cause with
  | [] => none
  | parts => some (": ".intercalate parts)

end Failure

/-- Results that may fail. -/
abbrev Outcome (α : Type) := Except Failure α

namespace Outcome

variable {α : Type}

def during (activity : String) (r : Outcome α) : Outcome α :=
  r.mapError (Failure.during activity)

def ofOption (f : Failure) : Option α → Outcome α
  | some a => .ok a
  | none => .error f

end Outcome

end MaterialGraph
