import MaterialGraph.Mapping.Assign
import MaterialGraph.Precision
import MaterialGraph.Stage

/-!
What decides the text of one stage of one pass, and the defines that tell the
shader code about it.
-/

namespace MaterialGraph

structure Plan where
  shader : String
  pass : Pass
  stage : Stage
  precision : Precision
  variant : Variant
  usage : Usage
  mapping : Mapping
  material : Material
  /-- The precision of a texture's sampler. -/
  samplerPrecision : UInt8 → Precision
  /-- The functions of the node types and the body of the pass. -/
  materialText : String

structure Define where
  name : String
  value : Option String := none
deriving DecidableEq, Inhabited

namespace Define

def render (d : Define) : String :=
  "#define " ++ d.name ++ (d.value.elim "" fun v => " " ++ v) ++ "\r\n"

def flag (name : String) : Define :=
  ⟨name, none⟩

def valued (name value : String) : Define :=
  ⟨name, some value⟩

def flagIf (condition : Bool) (name : String) : List Define :=
  if condition then [flag name] else []

/-- A count of zero is left out. -/
def count (name : String) (n : Nat) : List Define :=
  if n = 0 then [] else [valued name (toString n)]

def ofStage : Stage → List Define
  | .vertex => [flag "VERTEX"]
  | .fragment => [flag "FRAGMENT", flag "MATERIAL"]

def ofPrecision (p : Precision) : List Define :=
  [flag ("PRECISION_" ++ p.defineSuffix), valued "PFLOAT" p.scalarFamily,
    valued "PFLOAT2" (p.scalarFamily ++ "2"), valued "PFLOAT3" (p.scalarFamily ++ "3"),
    valued "PFLOAT4" (p.scalarFamily ++ "4"),
    valued "PRECISION_COLOR_TYPE" (p.scalarFamily ++ "4")]

/-- Frame buffers are two-dimensional and have the precision of the shader. -/
def ofTextureUnit (p : Plan) (unit : Nat) (t : TextureUnit) : List Define :=
  let type := match t.source with
    | .texture => p.usage.textureType t.index
    | .framebuffer => .sampler2D
  let precision := match t.source with
    | .texture => p.samplerPrecision t.index
    | .framebuffer => p.precision
  [valued ("T" ++ toString unit ++ "TYPE") type.name,
    valued ("T" ++ toString unit ++ "PRECISION") precision.qualifier]

def ofTextures (p : Plan) : List Define :=
  count "TEXTURES" p.mapping.textures.length ++
    p.mapping.textures.zipIdx.flatMap fun (t, unit) => ofTextureUnit p unit t

/-- How the vertex stage computes a texture coordinate register. -/
def ofRegister (m : Material) (register : Nat) (index : UInt8) : List Define :=
  let stage := m.stage index
  let name := "TEXCOORD" ++ toString register ++ "_"
  valued (name ++ "UV") (toString stage.uv) ::
    (TexCoordMod.all.flatMap fun t =>
      flagIf (stage.modFlags &&& t.flag != 0) (name ++ t.defineSuffix)) ++
    flagIf (stage.gen == .envmap) (name ++ "GENREFLECT")

def ofRegisters (p : Plan) : List Define :=
  count "TEXCOORDS" p.mapping.registers.length ++
    match p.stage with
    | .vertex =>
      p.mapping.registers.zipIdx.flatMap fun (index, register) =>
        ofRegister p.material register index
    | .fragment => []

def ofCounts (p : Plan) : List Define :=
  count "COLORS" (p.mapping.streamCount .vertexColor) ++
    count "LIGHTS" p.usage.lightCount ++
    count "NORMALS" (p.mapping.streamCount .normals) ++
    count "TANGENTS" (p.mapping.streamCount .tangents) ++
    count "BITANGENTS" (p.usage.count .bitangent)

def ofVariant (p : Plan) : List Define :=
  flagIf (p.variant.skinMode == .sprite && p.pass != .preview) "SKIN_SPRITE" ++
    flagIf p.variant.genReflect "GENREFLECT"

end Define

/-- The defines of a stage, in their fixed order. -/
def Plan.defines (p : Plan) (gles : Bool) : List Define :=
  Define.ofStage p.stage ++ Define.ofPrecision p.precision ++ Define.ofTextures p ++
    Define.ofRegisters p ++ Define.ofCounts p ++ Define.flagIf gles "_GLES" ++ Define.ofVariant p

def Plan.defineBlock (p : Plan) (gles : Bool) : String :=
  String.join ((p.defines gles).map Define.render)

end MaterialGraph
