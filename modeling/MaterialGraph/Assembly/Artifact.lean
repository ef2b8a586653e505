import MaterialGraph.Resource.Directory
import MaterialGraph.Stage

/-!
Artifacts: the texts that go into the optimizer and come out of it, kept for
diagnosis. A sink takes them and may fail to.
-/

namespace MaterialGraph

/-- Before or after the optimizer. -/
inductive ArtifactSide
  | pre | post
deriving DecidableEq, Inhabited

def ArtifactSide.tag : ArtifactSide → String
  | pre => "pre"
  | post => "post"

def artifactName (shader : String) (pass : Pass) (side : ArtifactSide) (stage : Stage) : String :=
  shader ++ "." ++ toString pass.index ++ "." ++ side.tag ++ "." ++ stage.tag ++ ".glsl"

def logName (shader : String) (pass : Pass) (stage : Stage) : String :=
  shader ++ "." ++ toString pass.index ++ "." ++ stage.tag ++ ".log"

/-- Takes an artifact in some state of the outside and leaves a state, also when
it fails. -/
structure ArtifactSink (σ : Type) where
  persist : (name text : String) → σ → Outcome Unit × σ

namespace ArtifactSink

/-- Keeps artifacts in a table. -/
def table : ArtifactSink (Table String) where
  persist name text t := (.ok (), t.insert name text)

/-- Writes artifacts to files in a directory, which is created on demand. -/
def directory (dir : String) : ArtifactSink FileTree where
  persist name text t :=
    match t.ensure dir with
    | .error e => (.error e, t)
    | .ok t' =>
      match t'.write (Path.join dir name) (Text.toBytes text) with
      | .error e => (.error e, t')
      | .ok t'' => (.ok (), t'')

/-- A sink for a part of a larger state. -/
def on {σ τ : Type} (part : τ → σ) (replace : τ → σ → τ) (s : ArtifactSink σ) :
    ArtifactSink τ where
  persist name text state :=
    let (r, p) := s.persist name text (part state)
    (r, replace state p)

end ArtifactSink

end MaterialGraph
