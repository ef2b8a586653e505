import MaterialGraph.Mapping.Basic
import MaterialGraph.Mapping.TexCoord

/-!
Mappings of a pass. The base mapping depends on the usage of the pass and the
variant of the shader alone; the full mapping adds the texture coordinate
registers of a material and one attribute array per channel they read.
-/

namespace MaterialGraph

namespace Usage

/-- Tangent space needs normals and tangents. -/
def needsTangentBasis (u : Usage) : Bool :=
  u.uses .lightTanVec || u.uses .lightTanHalfVec

private def insertIf (condition : Bool) (s : IndexSet) : IndexSet :=
  if condition then s.insert 0 else s

/-- The indices that a pass binds per vertex stream, in slot order. Positions
are always bound, and a tangent basis, a reflection and sprite skinning bind
streams that the graph need not refer to. Previews are not skinned. -/
def streams (u : Usage) (pass : Pass) (v : Variant) : List (VertexStream × IndexSet) :=
  [(.vertices, (u.indices .vertex).insert 0),
    (.normals, insertIf (u.needsTangentBasis || v.genReflect) (u.indices .normal)),
    (.tangents, insertIf u.needsTangentBasis (u.indices .tangent)),
    (.vertexColor, u.indices .vertexColor),
    (.spriteSkin, if pass != .preview && v.skinMode == .sprite then
      (u.indices .spriteSkin).insert 0 else .empty)]

/-- The highest index of the first light source that goes beyond the limit. -/
def lightBeyond? (u : Usage) (limit : Nat) : Option UInt8 :=
  MaterialSource.lights.findSome? fun s =>
    (u.indices s).max?.filter fun i => limit ≤ i.toNat

end Usage

namespace Mapping

def base (u : Usage) (pass : Pass) (v : Variant) (l : Limits) : Except CompileError Mapping :=
  let textures := u.count .texture + u.count .framebuffer
  let streams := u.streams pass v
  let attributes := (streams.map fun s => s.2.size).foldl (· + ·) 0
  match u.lightBeyond? l.maxLights with
  | some index => .error (.lightLimit index l.maxLights)
  | none =>
    if l.maxTextures < textures then .error (.textureLimit textures l.maxTextures)
    else if l.maxAttribArrays < attributes then
      .error (.attributeLimit attributes l.maxAttribArrays)
    else
      let m := ((default : Mapping).pushTextures .texture (u.indices .texture).toList).pushTextures
        .framebuffer (u.indices .framebuffer).toList
      .ok (streams.foldl (fun m s => m.pushAttributes s.1 s.2.toList) m)

/-- The channels that the registers read. -/
def channels (material : Material) (registers : List UInt8) : IndexSet :=
  IndexSet.ofList (registers.map fun i => (material.stage i).uv)

def full (m : Mapping) (u : Usage) (material : Material) (l : Limits) :
    Except CompileError (Mapping × TexCoordTable) := do
  let table ← TexCoordTable.ofUsage u material l
  let registers := table.canonicals
  let channels := channels material registers
  let used := m.attributes.length + channels.size
  if l.maxAttribArrays < used then .error (.attributeLimit used l.maxAttribArrays)
  else .ok ({ m with registers := registers }.pushAttributes .texCoords channels.toList, table)

end Mapping

end MaterialGraph
