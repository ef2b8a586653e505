import MaterialGraph.Mapping.Source

/-!
Assignments of hardware slots. Texture units, attribute arrays and texture
coordinate registers are numbered by position; how many of them stem from each
source is counted in bytes.
-/

namespace MaterialGraph

structure TextureUnit where
  source : TextureSource
  index : UInt8
deriving DecidableEq, Inhabited

structure AttributeArray where
  stream : VertexStream
  index : UInt8
deriving DecidableEq, Inhabited

structure Mapping where
  textures : List TextureUnit := []
  attributes : List AttributeArray := []
  textureCounts : Vector UInt8 2 := Vector.replicate 2 0
  streamCounts : Vector UInt8 6 := Vector.replicate 6 0
  /-- Per register, the texture whose stage computes the coordinates. -/
  registers : List UInt8 := []
deriving DecidableEq

namespace Mapping

instance : Inhabited Mapping :=
  ⟨{}⟩

def texture? (m : Mapping) (unit : Nat) : Option TextureUnit :=
  m.textures[unit]?

def attribute? (m : Mapping) (slot : Nat) : Option AttributeArray :=
  m.attributes[slot]?

/-- The unit that a texture or frame buffer is bound to. -/
def textureUnit? (m : Mapping) (source : TextureSource) (index : UInt8) : Option Nat :=
  m.textures.idxOf? ⟨source, index⟩

def textureCount (m : Mapping) (source : TextureSource) : Nat :=
  m.textureCounts[source.tag].toNat

def streamCount (m : Mapping) (stream : VertexStream) : Nat :=
  m.streamCounts[stream.tag].toNat

def pushTexture (m : Mapping) (source : TextureSource) (index : UInt8) : Mapping :=
  { m with
    textures := m.textures ++ [⟨source, index⟩]
    textureCounts := m.textureCounts.set source.tag (m.textureCounts[source.tag] + 1) }

def pushAttribute (m : Mapping) (stream : VertexStream) (index : UInt8) : Mapping :=
  { m with
    attributes := m.attributes ++ [⟨stream, index⟩]
    streamCounts := m.streamCounts.set stream.tag (m.streamCounts[stream.tag] + 1) }

def pushTextures (m : Mapping) (source : TextureSource) (indices : List UInt8) : Mapping :=
  indices.foldl (fun m i => m.pushTexture source i) m

def pushAttributes (m : Mapping) (stream : VertexStream) (indices : List UInt8) : Mapping :=
  indices.foldl (fun m i => m.pushAttribute stream i) m

end Mapping

end MaterialGraph
