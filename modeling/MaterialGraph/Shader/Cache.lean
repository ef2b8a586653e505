import MaterialGraph.Shader.Compile

/-!
Shaders kept by name and variant. A shader that fails to load is not kept.
-/

namespace MaterialGraph

structure ShaderCache where
  entries : List ((String × Variant) × Shader) := []
deriving DecidableEq, Inhabited

namespace ShaderCache

def get? (c : ShaderCache) (name : String) (v : Variant) : Option Shader :=
  c.entries.lookup (name, v)

def size (c : ShaderCache) : Nat :=
  c.entries.length

def isEmpty (c : ShaderCache) : Bool :=
  c.entries.isEmpty

/-- Forgets every shader. -/
def clear (_ : ShaderCache) : ShaderCache :=
  {}

/-- The shader of a name for a material, loaded on first use. -/
def load (c : ShaderCache) (resolver : Resolver) (l : Limits) (name : String) (m : Material) :
    Loading (Shader × ShaderCache) := do
  match c.get? name m.variant with
  | some s => return (s, c)
  | none =>
    let s ← Shader.fetch resolver l name m.variant
    return (s, ⟨c.entries ++ [((name, m.variant), s)]⟩)

end ShaderCache

end MaterialGraph
