import MaterialGraph.Leaf
import MaterialGraph.NodeType.Fault
import MaterialGraph.Output
import MaterialGraph.Pass
import MaterialGraph.Stage

/-!
The faults of a shader that its author can act on, sorted into five kinds.
-/

namespace MaterialGraph

/-- What is wrong with a binding of a document. -/
inductive BindingFault
  | nodeWithIndex
  | leafWithOutput
  | unknownSource (name : String)
  | indexOutOfRange (index : Int)
  | nodeAndSource
  | neither
  | noSuchNode (name : String)
deriving DecidableEq, Inhabited

def BindingFault.message : BindingFault → String
  | nodeWithIndex => "node bindings take no index"
  | leafWithOutput => "leaf bindings take no output"
  | unknownSource name => "unknown material source '" ++ name ++ "'"
  | indexOutOfRange index => "index " ++ toString index ++ " out of range"
  | nodeAndSource => "both node and source given"
  | neither => "expected either node or source"
  | noSuchNode name => "no node named '" ++ name ++ "'"

inductive CompileError
  | unknownNodeType (nodeType place : String)
  | malformedNodeType (nodeType : String) (fault : NodeType.Malformation)
  | malformedBinding (site : String) (fault : BindingFault)
  | missingOutput (node output : String)
  | missingReturnRegister (node : String)
  | missingInput (node nodeType input : String)
  | unknownInput (node input : String)
  | recursiveNode (node : String)
  | invalidOutput (pass : Pass) (output : Output)
  | unboundInput (node nodeType input : String)
  | unaddressableSource (source : MaterialSource)
  | textureLimit (used limit : Nat)
  | attributeLimit (used limit : Nat)
  | texCoordLimit (used limit : Nat)
  | lightLimit (index : UInt8) (limit : Nat)
  | missingInclude (name : String)
  | optimizerFailed (shader : String) (pass : Pass) (stage : Stage) (log : String)
deriving DecidableEq, Inhabited

namespace CompileError

inductive Kind
  /-- Description data is missing or malformed. -/
  | description
  /-- The graph is cyclic or incomplete. -/
  | structural
  /-- The hardware has too few slots. -/
  | capacity
  /-- A named text cannot be found. -/
  | resource
  /-- The optimizer rejects the assembled text. -/
  | backend
deriving DecidableEq, Inhabited

def kind : CompileError → Kind
  | unknownNodeType .. | malformedNodeType .. | malformedBinding .. | missingOutput ..
  | missingReturnRegister .. | missingInput .. | unknownInput .. | invalidOutput .. =>
    .description
  | recursiveNode .. | unboundInput .. | unaddressableSource .. => .structural
  | textureLimit .. | attributeLimit .. | texCoordLimit .. | lightLimit .. => .capacity
  | missingInclude .. => .resource
  | optimizerFailed .. => .backend

private def exceeded (what : String) (used limit : Nat) : String :=
  what ++ " (" ++ toString used ++ " > " ++ toString limit ++ ")"

def message : CompileError → String
  | unknownNodeType nodeType place =>
    "unknown node type '" ++ nodeType ++ "' (" ++ place ++ " not found)"
  | malformedNodeType nodeType fault => "node type " ++ nodeType ++ ": " ++ fault.message
  | malformedBinding site fault => "invalid binding for " ++ site ++ ": " ++ fault.message
  | missingOutput node output => "node " ++ node ++ " does not have output named " ++ output
  | missingReturnRegister node => "node " ++ node ++ " does not have a return register"
  | missingInput node nodeType input =>
    "node '" ++ node ++ "' (" ++ nodeType ++ ") has no binding for input " ++ input
  | unknownInput node input => "node " ++ node ++ " does not have input named " ++ input
  | recursiveNode node => "recursive material node '" ++ node ++ "'"
  | invalidOutput pass output =>
    "invalid material " ++ output.key ++ " output in pass " ++ pass.name
  | unboundInput node nodeType input =>
    "node is missing input (" ++ nodeType ++ ":\"" ++ node ++ "\", In." ++ input ++ ")"
  | unaddressableSource source =>
    "material source " ++ source.title ++ " cannot be referenced from a shader graph"
  | textureLimit used limit => exceeded "texture limits exceeded" used limit
  | attributeLimit used limit => exceeded "attribute limits exceeded" used limit
  | texCoordLimit used limit => exceeded "texcoord register overflow" used limit
  | lightLimit index limit =>
    "light index " ++ toString index ++ " exceeds light limit " ++ toString limit
  | missingInclude name => "unable to locate '" ++ name ++ "'"
  | optimizerFailed shader pass stage log =>
    "shader optimizer failed for " ++ shader ++ " pass " ++ pass.name ++ " (" ++ stage.tag ++
      "):\n" ++ log

end CompileError

end MaterialGraph
