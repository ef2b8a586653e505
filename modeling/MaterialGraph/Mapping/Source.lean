/-!
What the backend binds: textures and frame buffers on texture units, vertex
streams on attribute arrays. Each kind has a byte tag.
-/

namespace MaterialGraph

inductive TextureSource
  | texture | framebuffer
deriving DecidableEq, Inhabited

namespace TextureSource

def all : List TextureSource :=
  [texture, framebuffer]

def name : TextureSource → String
  | texture => "Texture"
  | framebuffer => "Framebuffer"

def ofName? (s : String) : Option TextureSource :=
  all.find? fun t => t.name == s

def tag : TextureSource → Fin 2
  | texture => 0
  | framebuffer => 1

def ofTag? (tag : UInt8) : Option TextureSource :=
  all[tag.toNat]?

end TextureSource

inductive VertexStream
  | vertices | normals | tangents | texCoords | vertexColor | spriteSkin
deriving DecidableEq, Inhabited

namespace VertexStream

def all : List VertexStream :=
  [vertices, normals, tangents, texCoords, vertexColor, spriteSkin]

def name : VertexStream → String
  | vertices => "Vertices"
  | normals => "Normals"
  | tangents => "Tangents"
  | texCoords => "TexCoords"
  | vertexColor => "VertexColor"
  | spriteSkin => "SpriteSkin"

def ofName? (s : String) : Option VertexStream :=
  all.find? fun t => t.name == s

def tag : VertexStream → Fin 6
  | vertices => 0
  | normals => 1
  | tangents => 2
  | texCoords => 3
  | vertexColor => 4
  | spriteSkin => 5

def ofTag? (tag : UInt8) : Option VertexStream :=
  all[tag.toNat]?

end VertexStream

end MaterialGraph
