import MaterialGraph.Body.Accessor
import MaterialGraph.Body.Emit
import MaterialGraph.Body.Library
import MaterialGraph.Mapping.Assign
import MaterialGraph.PassGraph.Load

/-!
Shaders: documents with the graphs of their passes, the usage and base mapping
of each, and the node types that some pass needs.
-/

namespace MaterialGraph

structure ShaderPass where
  graph : PassGraph
  usage : Usage
  mapping : Mapping
deriving DecidableEq, Inhabited

structure Shader where
  document : Document
  variant : Variant
  types : Table NodeType
  /-- The passes that write an output, in index order. -/
  passes : List ShaderPass
deriving DecidableEq, Inhabited

namespace Shader

def name (s : Shader) : String :=
  s.document.name

/-- What a failure in a pass of a shader is reported under. -/
def passActivity (shader : String) (pass : Pass) : String :=
  "shader '" ++ shader ++ "' pass " ++ pass.name

/-- A document may ask for sprite skinning where a material does not. -/
def resolveVariant (d : Document) (v : Variant) : Variant :=
  if d.skinMode = .sprite then { v with skinMode := .sprite } else v

/-- The types of the live nodes, added to some others. -/
def addTypes (types : Table NodeType) (p : PassGraph) : Table NodeType :=
  (p.live.filterMap p.graph.node?).foldl (fun t n => t.insert n.type.name n.type) types

def analyse (d : Document) (v : Variant) (l : Limits) (p : PassGraph) : Outcome ShaderPass := do
  let usage := p.usage
  let mapping ← Outcome.during (passActivity d.name p.pass)
    ((Mapping.base usage p.pass v l).mapError Failure.compile)
  .ok ⟨p, usage, mapping⟩

def loadPasses (resolver : Resolver) (d : Document) (v : Variant) (l : Limits) :
    List Pass → Loading (List ShaderPass)
  | [] => return []
  | pass :: rest => do
    match ← PassGraph.load resolver d pass with
    | none => loadPasses resolver d v l rest
    | some p =>
      let sp ← Loading.ofOutcome (analyse d v l p)
      let others ← loadPasses resolver d v l rest
      return sp :: others

def load (resolver : Resolver) (l : Limits) (d : Document) (v : Variant) : Loading Shader := do
  let v := resolveVariant d v
  let passes ← loadPasses resolver d v l Pass.all
  if passes.isEmpty then throw (.fault (.noPasses d.name))
  else return ⟨d, v, passes.foldl (fun t p => addTypes t p.graph) .empty, passes⟩

def pass? (s : Shader) (pass : Pass) : Option ShaderPass :=
  s.passes.find? fun p => p.graph.pass == pass

def outputs (s : Shader) (pass : Pass) : OutputSet :=
  (s.pass? pass).elim .none fun p => p.graph.outputs

/-- The number of indices of a source that a pass refers to. -/
def sourceUsage (s : Shader) (pass : Pass) (source : MaterialSource) : Nat :=
  (s.pass? pass).elim 0 fun p => p.usage.count source

/-- The indices of a vertex stream that a pass refers to. -/
def streamUsage (s : Shader) (pass : Pass) (stream : VertexStream) : IndexSet :=
  (s.pass? pass).elim .empty fun p => p.usage.indices <|
    match stream with
    | .vertices => .vertex
    | .normals => .normal
    | .tangents => .tangent
    | .texCoords => .texCoord
    | .vertexColor => .vertexColor
    | .spriteSkin => .spriteSkin

def requirePass (s : Shader) (pass : Pass) : Outcome ShaderPass :=
  Outcome.ofOption (.fault (.noSuchPass s.name pass)) (s.pass? pass)

/-- The full mapping of a pass for a material. -/
def mappings (s : Shader) (material : Material) (pass : Pass) (l : Limits) :
    Outcome (Mapping × TexCoordTable) := do
  let p ← s.requirePass pass
  Outcome.during (passActivity s.name pass)
    ((p.mapping.full p.usage material l).mapError Failure.compile)

/-- The body of a pass for a material. -/
def body (s : Shader) (material : Material) (pass : Pass) (l : Limits) : Outcome Body := do
  let p ← s.requirePass pass
  let (mapping, texCoords) ← s.mappings material pass l
  Outcome.during (passActivity s.name pass)
    (Body.ofPass p.graph (Accessors.text ⟨p.usage, mapping, texCoords⟩))

def library (s : Shader) (resolver : Resolver) : Outcome String :=
  Body.library resolver s.types.entries

end Shader

end MaterialGraph
