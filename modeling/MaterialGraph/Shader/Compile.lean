import MaterialGraph.Assembly.Assemble
import MaterialGraph.Cooked.Format
import MaterialGraph.Document.Text
import MaterialGraph.Shader.Basic

/-!
Compiling shaders: loading them by name, the texts of their passes, and cooking
the passes into one file.
-/

namespace MaterialGraph

structure CompiledPass where
  pass : Pass
  outputs : OutputSet
  mapping : Mapping
  texCoords : TexCoordTable
  vertex : String
  fragment : String
deriving DecidableEq, Inhabited

/-- The name of the function that holds the body of a pass. -/
def entryPoint : String := "Diffuse"

namespace Shader

/-- Loads the shader of a name. -/
def fetch (resolver : Resolver) (l : Limits) (name : String) (v : Variant) : Loading Shader := do
  match ← Loading.ofOutcome (resolver.resolve .shader name) with
  | none => throw (.fault (.shaderNotFound name (resolver.place .shader name)))
  | some text =>
    let d ← Loading.ofOutcome (Outcome.during (resolver.place .shader name) (Document.parse text))
    load resolver l d v

end Shader

namespace Compiler

variable {σ : Type}

def plan (s : Shader) (p : ShaderPass) (material : Material) (mapping : Mapping)
    (materialText : String) (stage : Stage) : Plan where
  shader := s.name
  pass := p.graph.pass
  stage := stage
  precision := s.document.precision
  variant := s.variant
  usage := p.usage
  mapping := mapping
  material := material
  samplerPrecision := s.document.precisionOfTexture
  materialText := materialText

/-- The texts of both stages of a pass. -/
def compilePass (c : Compiler σ) (s : Shader) (pass : Pass) (material : Material) :
    Action σ CompiledPass := do
  let p ← Action.ofOutcome (s.requirePass pass)
  let (mapping, texCoords) ← Action.ofOutcome (s.mappings material pass c.config.limits)
  let functions ← Action.ofOutcome (s.library (c.resolver (← get)))
  let body ← Action.ofOutcome (s.body material pass c.config.limits)
  let materialText := functions ++ body.render entryPoint
  let vertex ← c.assemble (plan s p material mapping materialText .vertex)
  let fragment ← c.assemble (plan s p material mapping materialText .fragment)
  return ⟨pass, p.graph.outputs, mapping, texCoords, vertex, fragment⟩

def cookPass (c : Compiler σ) (s : Shader) (material : Material) (pass : Pass) :
    Action σ CookedPass := do
  let compiled ← c.compilePass s pass material
  let block ← Action.ofOutcome ((MappingBlock.ofMapping compiled.mapping).mapError Failure.fault)
  return ⟨pass, compiled.outputs, block, compiled.vertex, compiled.fragment⟩

/-- All passes but the preview, cooked. -/
def cook (c : Compiler σ) (s : Shader) (material : Material) : Action σ (List UInt8) := do
  let passes := (s.passes.map fun p => p.graph.pass).filter (· != .preview)
  let cooked ← passes.mapM (c.cookPass s material)
  Action.ofOutcome (Cooked.encode Cooked.textBackend cooked)

end Compiler

end MaterialGraph
