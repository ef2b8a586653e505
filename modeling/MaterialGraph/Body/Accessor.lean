import MaterialGraph.Failure
import MaterialGraph.Mapping.Basic
import MaterialGraph.Mapping.TexCoord

/-!
The shader text that reads a leaf. Textures and texture coordinates are read
through their slots, vertex streams through the position of their index among
the indices in use, and lights by their number.
-/

namespace MaterialGraph

structure Accessors where
  usage : Usage
  mapping : Mapping
  texCoords : TexCoordTable

namespace Accessors

def slotted (l : Leaf) (text : String → String) : Option Nat → Outcome String
  | some slot => .ok (text (toString slot))
  | none => .error (.fault (.unmappedLeaf l))

def light (l : Leaf) (value : String) : String :=
  "light" ++ toString l.index ++ "_" ++ value

def uniform (name : String) : String :=
  "UNIFORM(" ++ name ++ ")"

def varying (name : String) : String :=
  "IN(" ++ name ++ ")"

def direction (name : String) : String :=
  "normalize(" ++ varying name ++ ")"

def text (a : Accessors) (l : Leaf) : Outcome String :=
  let position := (a.usage.indices l.source).position? l.index
  match l.source with
  | .texture =>
    slotted l (fun slot => uniform ("t" ++ slot)) (a.mapping.textureUnit? .texture l.index)
  | .framebuffer =>
    slotted l (fun slot => uniform ("t" ++ slot)) (a.mapping.textureUnit? .framebuffer l.index)
  | .color => .ok "U_color"
  | .specularColor => .ok "U_scolor"
  | .specularExponent => .ok "U_scolor.w"
  | .lightDiffuseColor => .ok (uniform (light l "diffuseColor"))
  | .lightSpecularColor => .ok (uniform (light l "specularColor"))
  | .lightPos => .ok (uniform (light l "pos"))
  | .lightVec => .ok (direction (light l "vec"))
  | .lightHalfVec => .ok (direction (light l "halfvec"))
  | .lightVertex => .ok (varying (light l "vpos"))
  | .lightTanVec => .ok (direction (light l "tanvec"))
  | .lightTanHalfVec => .ok (direction (light l "tanhalfvec"))
  | .vertex => .ok (varying "position")
  | .normal => slotted l (fun slot => direction ("nm" ++ slot)) position
  | .tangent => slotted l (fun slot => varying ("tan" ++ slot)) position
  | .bitangent => slotted l (fun slot => varying ("bitan" ++ slot)) position
  | .texCoord =>
    slotted l (fun slot => varying ("tc" ++ slot))
      ((a.texCoords.register? l.index).map UInt8.toNat)
  | .vertexColor => slotted l (fun slot => varying ("vertexColor" ++ slot)) position
  | .spriteSkin => .error (.compile (.unaddressableSource l.source))

end Accessors

end MaterialGraph
