import MaterialGraph.Assembly.Artifact
import MaterialGraph.Assembly.Include
import MaterialGraph.Assembly.Plan

/-!
The text of a stage: defines, prelude fragments and material text, put through
the optimizer where there is one.
-/

namespace MaterialGraph

/-- Turns the text of a stage into another one, or rejects it with a log. -/
structure Optimizer where
  optimize : (source : String) → Stage → Except String String

/-- The compiler's settings and what it talks to. The texts that it reads may
depend on the state of the outside. -/
structure Compiler (σ : Type) where
  config : Config
  resolver : σ → Resolver
  optimizer : Option Optimizer := none
  sink : Option (ArtifactSink σ) := none

/-- Activities that may change the outside, also when they fail. -/
abbrev Action (σ : Type) := ExceptT Failure (StateM σ)

namespace Action

variable {σ α : Type}

def ofOutcome (r : Outcome α) : Action σ α :=
  ExceptT.mk (pure r)

def during (activity : String) (x : Action σ α) : Action σ α :=
  ExceptT.adapt (Failure.during activity) x

end Action

namespace Assembly

/-- The prelude fragments, each under a line with its name. -/
def prelude (resolver : Resolver) : List String → Outcome String
  | [] => .ok ""
  | name :: rest => do
    match ← resolver.resolve .fragment name with
    | none => .error (.compile (.missingInclude name))
    | some text =>
      let others ← prelude resolver rest
      .ok ("// " ++ name ++ "\r\n" ++ text ++ "\r\n" ++ others)

/-- The text before the optimizer. Without an include for it, the material text
of the fragment stage comes last. -/
def source (config : Config) (resolver : Resolver) (p : Plan) : Outcome String := do
  let fragments ← prelude resolver config.prelude
  let e ← Include.expand resolver p.stage p.materialText (p.defineBlock config.gles ++ fragments)
  if p.stage = .fragment ∧ e.sawMaterial = false then
    .ok (String.ofList e.text ++ p.materialText)
  else .ok (String.ofList e.text)

/-- The default precision that embedded shaders declare. -/
def precisionLine : Stage → String
  | .vertex => "precision mediump float;\r\n"
  | .fragment => "precision lowp float;\r\n"

end Assembly

namespace Compiler

variable {σ : Type}

/-- Hands an artifact to the sink, whose failures are of no consequence. -/
def persist (c : Compiler σ) (name text : String) : Action σ Unit :=
  match c.sink with
  | none => pure ()
  | some s => modify fun state => (s.persist name text state).2

def optimizer? (c : Compiler σ) : Option Optimizer :=
  if c.config.optimize then c.optimizer else none

/-- The text of a stage. What goes into the optimizer and what comes out of it is
handed to the sink. -/
def assemble (c : Compiler σ) (p : Plan) : Action σ String := do
  let source ← Action.ofOutcome (Assembly.source c.config (c.resolver (← get)) p)
  match c.optimizer? with
  | none => return source
  | some o =>
    c.persist (artifactName p.shader p.pass .pre p.stage) source
    match o.optimize source p.stage with
    | .ok optimized =>
      let text := if c.config.gles then Assembly.precisionLine p.stage ++ optimized else optimized
      c.persist (artifactName p.shader p.pass .post p.stage) text
      return text
    | .error log =>
      c.persist (logName p.shader p.pass p.stage) log
      throw (.compile (.optimizerFailed p.shader p.pass p.stage log))

end Compiler

end MaterialGraph
