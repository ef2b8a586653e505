import MaterialGraph.Material
import MaterialGraph.Proofs.Json.Parser
import MaterialGraph.Proofs.Json.Reader

/-!
The text form of materials. Main statement: every material is read back from the text that
is written of it. All its fields are written, also those that have their default.
-/

namespace MaterialGraph

section Names

theorem SkinMode.ofName?_name (m : SkinMode) : ofName? m.name = some m := by
  cases m <;> rfl

theorem TexCoordGen.ofName?_name (g : TexCoordGen) : ofName? g.name = some g := by
  cases g <;> rfl

theorem TexCoordMod.ofName?_name (m : TexCoordMod) : ofName? m.name = some m := by
  cases m <;> rfl

theorem Wave.ofName?_name (w : Wave) : ofName? w.name = some w := by
  cases w <;> rfl

end Names

namespace Modifiers

theorem foldl_set_given (ms : Modifiers) : ms.given.foldl (fun ms e => ms.set e.1 e.2) {} = ms := by
  obtain ⟨rotate, turb, scale, shift, scroll⟩ := ms
  cases rotate <;> cases turb <;> cases scale <;> cases shift <;> cases scroll <;> rfl

theorem ofJson?_toJson (ms : Modifiers) : ofJson? ms.toJson = some ms := by
  have hentries : (ms.given.map fun e => (some e.1.name, Json.text (some e.2.name))).mapM
      (fun (m : Option String × Json) => do
        let key ← m.1
        let modifier ← TexCoordMod.ofName? key
        let wave ← m.2.enum? Wave.ofName?
        some (modifier, wave)) = some ms.given :=
    Json.mapM_map_eq_some fun e _ => by
      simp [TexCoordMod.ofName?_name, Json.enum?, Wave.ofName?_name]
  calc ofJson? ms.toJson
      = (some ms.given).bind fun entries =>
          some (entries.foldl (fun ms e => ms.set e.1 e.2) {}) :=
        congrArg (Option.bind · _) hentries
    _ = some ms := by rw [Option.bind_some, foldl_set_given]

theorem writable (ms : Modifiers) : ms.toJson.Writable := by
  rw [toJson, Json.writable_object_iff, List.forall_mem_map, List.forall_mem_map]
  simp

end Modifiers

namespace TextureStage

/-- The members of the record that is written of a stage. -/
def members (s : TextureStage) : List (String × Json) :=
  [("uv", .int s.uv.toNat), ("tc_gen", .text s.gen.name), ("tc_mods", s.mods.toJson)]

theorem ofJson?_toJson (s : TextureStage) : ofJson? s.toJson = some s := by
  have hnames : ["uv", "tc_gen", "tc_mods"].Nodup := by decide
  have hrecord : s.toJson.record? ["uv", "tc_gen", "tc_mods"] true = some s.members :=
    Json.record?_written (r := s.members) hnames (.refl _) true
  have huv : Json.withDefault? s.members "uv" 0 Json.byte? = some s.uv :=
    Json.withDefault?_of_lookup rfl (Json.byte?_toNat s.uv)
  have hgen : Json.withDefault? s.members "tc_gen" .vertex (Json.enum? TexCoordGen.ofName?) =
      some s.gen :=
    Json.withDefault?_of_lookup rfl s.gen.ofName?_name
  have hmods : Json.withDefault? s.members "tc_mods" {} Modifiers.ofJson? = some s.mods :=
    Json.withDefault?_of_lookup rfl s.mods.ofJson?_toJson
  rw [ofJson?, hrecord, Option.bind_eq_bind, Option.bind_some]
  simp only [huv, hgen, hmods, Option.bind_eq_bind, Option.bind_some]

theorem writable (s : TextureStage) : s.toJson.Writable := by
  simp [toJson, s.mods.writable]

end TextureStage

namespace Material

/-- The members of the record that is written of a material. -/
def members (m : Material) : List (String × Json) :=
  [("skinMode", .text m.skinMode.name), ("textures", .array (m.textures.map TextureStage.toJson))]

theorem ofJson?_toJson (m : Material) : ofJson? m.toJson = some m := by
  have hnames : ["skinMode", "textures"].Nodup := by decide
  have hrecord : m.toJson.record? ["skinMode", "textures"] true = some m.members :=
    Json.record?_written (r := m.members) hnames (.refl _) true
  have hskin : Json.withDefault? m.members "skinMode" .default (Json.enum? SkinMode.ofName?) =
      some m.skinMode :=
    Json.withDefault?_of_lookup rfl m.skinMode.ofName?_name
  have htextures : Json.withDefault? m.members "textures" [] (Json.list? TextureStage.ofJson?) =
      some m.textures :=
    Json.withDefault?_of_lookup rfl (Json.list?_written fun s _ => s.ofJson?_toJson)
  rw [ofJson?, hrecord, Option.bind_eq_bind, Option.bind_some]
  simp only [hskin, htextures, Option.bind_eq_bind, Option.bind_some]

theorem writable (m : Material) : m.toJson.Writable := by
  simp [toJson, TextureStage.writable]

theorem parse?_render (m : Material) : Json.parse? m.render = some m.toJson :=
  Json.parse?_render m.writable

theorem parse_render (m : Material) : parse m.render = .ok m := by
  rw [parse, parse?_render, Option.bind_some, ofJson?_toJson]
  rfl

end Material

end MaterialGraph
