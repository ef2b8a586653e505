/-!
Leaves of a shader graph: values that the engine supplies. A leaf is a material
source together with an index, which tells apart textures, lights, streams and
texture coordinates of the same source.
-/

namespace MaterialGraph

inductive MaterialSource
  | texture | framebuffer | color | specularColor | specularExponent
  | lightDiffuseColor | lightSpecularColor | lightPos | lightVec | lightHalfVec
  | lightVertex | lightTanVec | lightTanHalfVec
  | vertex | normal | tangent | bitangent | texCoord | vertexColor | spriteSkin
deriving DecidableEq, Inhabited

namespace MaterialSource

def all : List MaterialSource :=
  [texture, framebuffer, color, specularColor, specularExponent,
    lightDiffuseColor, lightSpecularColor, lightPos, lightVec, lightHalfVec,
    lightVertex, lightTanVec, lightTanHalfVec,
    vertex, normal, tangent, bitangent, texCoord, vertexColor, spriteSkin]

/-- The position of a source among all sources. -/
def ordinal (s : MaterialSource) : Fin 20 :=
  match s with
  | texture => 0
  | framebuffer => 1
  | color => 2
  | specularColor => 3
  | specularExponent => 4
  | lightDiffuseColor => 5
  | lightSpecularColor => 6
  | lightPos => 7
  | lightVec => 8
  | lightHalfVec => 9
  | lightVertex => 10
  | lightTanVec => 11
  | lightTanHalfVec => 12
  | vertex => 13
  | normal => 14
  | tangent => 15
  | bitangent => 16
  | texCoord => 17
  | vertexColor => 18
  | spriteSkin => 19

theorem ordinal_injective {s t : MaterialSource} (h : s.ordinal = t.ordinal) : s = t := by
  cases s <;> cases t <;> first | rfl | exact absurd h (by decide)

theorem mem_all (s : MaterialSource) : s ∈ all := by
  cases s <;> decide

/-- The name of a source in documents. -/
def name : MaterialSource → String
  | texture => "texture"
  | framebuffer => "framebuffer"
  | color => "color"
  | specularColor => "specular_color"
  | specularExponent => "specular_exponent"
  | lightDiffuseColor => "light_diffuse_color"
  | lightSpecularColor => "light_specular_color"
  | lightPos => "light_pos"
  | lightVec => "light_vec"
  | lightHalfVec => "light_half_vec"
  | lightVertex => "light_vertex"
  | lightTanVec => "light_tan_vec"
  | lightTanHalfVec => "light_tan_half_vec"
  | vertex => "vertex"
  | normal => "normal"
  | tangent => "tangent"
  | bitangent => "bitangent"
  | texCoord => "tex_coord"
  | vertexColor => "vertex_color"
  | spriteSkin => "sprite_skin"

/-- The name of a source in messages. -/
def title : MaterialSource → String
  | texture => "Texture"
  | framebuffer => "Framebuffer"
  | color => "Color"
  | specularColor => "SpecularColor"
  | specularExponent => "SpecularExponent"
  | lightDiffuseColor => "LightDiffuseColor"
  | lightSpecularColor => "LightSpecularColor"
  | lightPos => "LightPos"
  | lightVec => "LightVec"
  | lightHalfVec => "LightHalfVec"
  | lightVertex => "LightVertex"
  | lightTanVec => "LightTanVec"
  | lightTanHalfVec => "LightTanHalfVec"
  | vertex => "Vertex"
  | normal => "Normal"
  | tangent => "Tangent"
  | bitangent => "Bitangent"
  | texCoord => "TexCoord"
  | vertexColor => "VertexColor"
  | spriteSkin => "SpriteSkin"

/-- Texture coordinates have a second spelling. -/
def ofName? (s : String) : Option MaterialSource :=
  if s = "texcoord" then some texCoord else all.find? fun t => t.name == s

/-- The index of a light source is the number of the light. -/
def isLight : MaterialSource → Bool
  | lightDiffuseColor | lightSpecularColor | lightPos | lightVec | lightHalfVec
  | lightVertex | lightTanVec | lightTanHalfVec => true
  | _ => false

/-- Light vectors in tangent space need a tangent basis. -/
def isTangentSpace : MaterialSource → Bool
  | lightTanVec | lightTanHalfVec => true
  | _ => false

def lights : List MaterialSource :=
  all.filter isLight

end MaterialSource

structure Leaf where
  source : MaterialSource
  index : UInt8
deriving DecidableEq, Inhabited

end MaterialGraph
