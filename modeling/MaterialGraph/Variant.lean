/-!
Properties of a material that change how a shader compiles.
-/

namespace MaterialGraph

inductive SkinMode
  | default | sprite
deriving DecidableEq, Inhabited

namespace SkinMode

def name : SkinMode → String
  | default => "default"
  | sprite => "sprite"

def ofName? (s : String) : Option SkinMode :=
  [default, sprite].find? fun m => m.name == s

end SkinMode

structure Variant where
  skinMode : SkinMode := .default
  /-- Some texture coordinates come from an environment reflection. -/
  genReflect : Bool := false
deriving DecidableEq, Inhabited

end MaterialGraph
