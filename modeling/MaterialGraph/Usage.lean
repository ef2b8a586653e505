import MaterialGraph.BasicType
import MaterialGraph.IndexSet
import MaterialGraph.Leaf

/-!
Usage of a pass: the indices of each material source that the pass refers to,
and the sampler types under which it samples its textures.
-/

namespace MaterialGraph

structure Usage where
  sources : Vector IndexSet 20
  /-- The first sampler type recorded for a texture stands. -/
  textureTypes : List (UInt8 × BasicType)
deriving DecidableEq

namespace Usage

def empty : Usage :=
  ⟨Vector.replicate 20 .empty, []⟩

instance : Inhabited Usage :=
  ⟨empty⟩

def indices (u : Usage) (s : MaterialSource) : IndexSet :=
  u.sources[s.ordinal]

def add (u : Usage) (l : Leaf) : Usage :=
  { u with sources := u.sources.set l.source.ordinal ((u.indices l.source).insert l.index) }

/-- Records the type of a sampler input that a texture feeds. -/
def addTextureType (u : Usage) (l : Leaf) (type : BasicType) : Usage :=
  if l.source = .texture ∧ type.isSampler ∧ (u.textureTypes.lookup l.index).isNone then
    { u with textureTypes := u.textureTypes ++ [(l.index, type)] }
  else u

def ofLeaves (leaves : List Leaf) : Usage :=
  leaves.foldl add empty

def uses (u : Usage) (s : MaterialSource) : Bool :=
  !(u.indices s).isEmpty

def count (u : Usage) (s : MaterialSource) : Nat :=
  (u.indices s).size

/-- A texture is two-dimensional unless an input says otherwise. -/
def textureType (u : Usage) (index : UInt8) : BasicType :=
  (u.textureTypes.lookup index).getD .sampler2D

/-- The leaves in the order of their sources and indices. -/
def leaves (u : Usage) : List Leaf :=
  MaterialSource.all.flatMap fun s => (u.indices s).toList.map fun i => ⟨s, i⟩

/-- The lights are numbered from zero without gaps, so the highest index of a
light source decides. -/
def lightCount (u : Usage) : Nat :=
  ((MaterialSource.lights.filterMap fun s => (u.indices s).max?).map fun i => i.toNat + 1).foldl
    max 0

theorem indices_add (u : Usage) (l : Leaf) (s : MaterialSource) :
    (u.add l).indices s =
      if s = l.source then (u.indices l.source).insert l.index else u.indices s := by
  unfold indices add
  by_cases h : s = l.source
  · subst h; simp [indices]
  · have hne : l.source.ordinal.val ≠ s.ordinal.val := fun heq =>
      h (MaterialSource.ordinal_injective (Fin.ext heq)).symm
    simp [h, Vector.getElem_set_ne _ _ hne]

end Usage

end MaterialGraph
