import MaterialGraph.CommandLine.Options
import MaterialGraph.Shader.Compile

/-!
One run of the command line: reads the inputs, compiles every pass of a shader,
and writes the texts of the passes and the cooked shader. Files written before a
failure stay.
-/

namespace MaterialGraph.CommandLine

/-- Resources lie beside the shader unless a root is given. -/
def resourceRoot (o : Options) (shader : String) : String :=
  o.root.getD ((Path.parent? shader).getD ".")

def readConfig (t : FileTree) (o : Options) : Outcome Config := do
  let config ← match o.config with
    | none => .ok {}
    | some path => do
      let text ← t.read "failed to read compiler config at" path
      Outcome.during ("invalid compiler config " ++ path) (Config.parse text)
  .ok { config with
    optimize := config.optimize && !o.noOptimize
    gles := config.gles || o.gles }

def readMaterial (t : FileTree) (o : Options) : Outcome Material :=
  match o.material with
  | none => .ok {}
  | some path => do
    let text ← t.read "failed to read material json at" path
    Material.parse text

def readDocument (t : FileTree) (path : String) : Outcome Document := do
  let text ← t.read "failed to read shader json at" path
  Outcome.during ("in " ++ path) (Document.parse text)

def compiler (config : Config) (root : String) (optimizer : Option Optimizer) :
    Compiler FileTree where
  config := config
  resolver := FileTree.resolver root
  optimizer := optimizer
  sink := config.artifactDir.map ArtifactSink.directory

def writeFile (dir name : String) (bytes : List UInt8) : Action FileTree Unit := do
  set (← Action.ofOutcome ((← get).write (Path.join dir name) bytes))

/-- The name of the file with the text of a stage. -/
def textFile (shader : String) (pass : Pass) (stage : Stage) : String :=
  shader ++ "." ++ pass.name ++ "." ++ stage.tag ++ ".glsl"

def writePass (c : Compiler FileTree) (s : Shader) (material : Material) (dir : String)
    (pass : Pass) : Action FileTree Unit := do
  let compiled ← Action.during ("failed to compile " ++ s.name ++ " pass " ++ pass.name)
    (c.compilePass s pass material)
  writeFile dir (textFile s.name pass .vertex) (Text.toBytes compiled.vertex)
  writeFile dir (textFile s.name pass .fragment) (Text.toBytes compiled.fragment)

def run (optimizer : Option Optimizer) (o : Options) : Action FileTree Unit := do
  let t ← get
  match o.shader with
  | none => throw (.fault (.shaderRequired usage))
  | some path =>
    let dir := o.outputDir.getD "."
    let config ← Action.ofOutcome (readConfig t o)
    let material ← Action.ofOutcome (readMaterial t o)
    let document ← Action.ofOutcome (readDocument t path)
    let c := compiler config (resourceRoot o path) optimizer
    let s ← Action.ofOutcome
      (Shader.load (c.resolver t) config.limits document material.variant .empty).1
    set (← Action.ofOutcome (t.ensure dir))
    for p in s.passes do
      writePass c s material dir p.graph.pass
    let cooked ← c.cook s material
    writeFile dir (s.name ++ ".cooked") cooked

end MaterialGraph.CommandLine
