import MaterialGraph.Failure
import MaterialGraph.Json.Parser
import MaterialGraph.Json.Printer
import MaterialGraph.Json.Reader
import MaterialGraph.Variant

/-!
Materials: per texture, where its coordinates come from and how they are
animated.
-/

namespace MaterialGraph

inductive TexCoordGen
  | vertex | envmap
deriving DecidableEq, Inhabited

namespace TexCoordGen

def name : TexCoordGen → String
  | vertex => "vertex"
  | envmap => "envmap"

/-- Environment maps have a second spelling. -/
def ofName? (s : String) : Option TexCoordGen :=
  if s = "env_map" then some envmap else [vertex, envmap].find? fun g => g.name == s

end TexCoordGen

inductive TexCoordMod
  | rotate | turb | scale | shift | scroll
deriving DecidableEq, Inhabited

namespace TexCoordMod

def all : List TexCoordMod :=
  [rotate, turb, scale, shift, scroll]

def name : TexCoordMod → String
  | rotate => "rotate"
  | turb => "turb"
  | scale => "scale"
  | shift => "shift"
  | scroll => "scroll"

def ofName? (s : String) : Option TexCoordMod :=
  all.find? fun m => m.name == s

def flag : TexCoordMod → UInt8
  | rotate => 1
  | turb => 2
  | scale => 4
  | shift => 8
  | scroll => 16

/-- The name of a modifier in defines. -/
def defineSuffix : TexCoordMod → String
  | rotate => "ROTATE"
  | turb => "TURB"
  | scale => "SCALE"
  | shift => "SHIFT"
  | scroll => "SCROLL"

end TexCoordMod

/-- The curve that drives a modifier. -/
inductive Wave
  | identity | constant | square | sawtooth | inverseSawtooth | triangle | sine | noise
deriving DecidableEq, Inhabited

namespace Wave

def all : List Wave :=
  [identity, constant, square, sawtooth, inverseSawtooth, triangle, sine, noise]

def name : Wave → String
  | identity => "identity"
  | constant => "constant"
  | square => "square"
  | sawtooth => "sawtooth"
  | inverseSawtooth => "inverse_sawtooth"
  | triangle => "triangle"
  | sine => "sine"
  | noise => "noise"

def ofName? (s : String) : Option Wave :=
  all.find? fun w => w.name == s

end Wave

/-- The modifiers that a stage gives, each with its wave. -/
structure Modifiers where
  rotate : Option Wave := none
  turb : Option Wave := none
  scale : Option Wave := none
  shift : Option Wave := none
  scroll : Option Wave := none
deriving DecidableEq, Inhabited

namespace Modifiers

def get? (ms : Modifiers) : TexCoordMod → Option Wave
  | .rotate => ms.rotate
  | .turb => ms.turb
  | .scale => ms.scale
  | .shift => ms.shift
  | .scroll => ms.scroll

def set (ms : Modifiers) (m : TexCoordMod) (w : Wave) : Modifiers :=
  match m with
  | .rotate => { ms with rotate := some w }
  | .turb => { ms with turb := some w }
  | .scale => { ms with scale := some w }
  | .shift => { ms with shift := some w }
  | .scroll => { ms with scroll := some w }

def given (ms : Modifiers) : List (TexCoordMod × Wave) :=
  TexCoordMod.all.filterMap fun m => (ms.get? m).map fun w => (m, w)

/-- The last wave of a modifier wins. -/
def ofJson? : Json → Option Modifiers
  | .object members => do
    let entries ← members.mapM fun (m : Option String × Json) => do
      let key ← m.1
      let modifier ← TexCoordMod.ofName? key
      let wave ← m.2.enum? Wave.ofName?
      some (modifier, wave)
    some (entries.foldl (fun ms e => ms.set e.1 e.2) {})
  | _ => none

def toJson (ms : Modifiers) : Json :=
  .object (ms.given.map fun (m, w) => (some m.name, .text w.name))

end Modifiers

structure TextureStage where
  /-- The texture coordinate channel that the stage reads. -/
  uv : UInt8 := 0
  gen : TexCoordGen := .vertex
  mods : Modifiers := {}
deriving DecidableEq, Inhabited

namespace TextureStage

def ofJson? (v : Json) : Option TextureStage := do
  let r ← v.record? ["uv", "tc_gen", "tc_mods"] true
  let uv ← Json.withDefault? r "uv" 0 Json.byte?
  let gen ← Json.withDefault? r "tc_gen" .vertex (Json.enum? TexCoordGen.ofName?)
  let mods ← Json.withDefault? r "tc_mods" {} Modifiers.ofJson?
  some ⟨uv, gen, mods⟩

def toJson (s : TextureStage) : Json :=
  .object [(some "uv", .int s.uv.toNat), (some "tc_gen", .text s.gen.name),
    (some "tc_mods", s.mods.toJson)]

/-- A modifier that is not given changes nothing. -/
def wave (s : TextureStage) (m : TexCoordMod) : Wave :=
  (s.mods.get? m).getD .identity

def isIdentity (s : TextureStage) : Bool :=
  TexCoordMod.all.all fun m => s.wave m == .identity

/-- The modifiers that change coordinates, as bits. -/
def modFlags (s : TextureStage) : UInt8 :=
  (TexCoordMod.all.filter fun m => s.wave m != .identity).foldl (fun acc m => acc ||| m.flag) 0

end TextureStage

structure Material where
  skinMode : SkinMode := .default
  /-- The stages by texture index. -/
  textures : List TextureStage := []
deriving DecidableEq, Inhabited

namespace Material

def ofJson? (v : Json) : Option Material := do
  let r ← v.record? ["skinMode", "textures"] true
  let skinMode ← Json.withDefault? r "skinMode" .default (Json.enum? SkinMode.ofName?)
  let textures ← Json.withDefault? r "textures" [] (Json.list? TextureStage.ofJson?)
  some ⟨skinMode, textures⟩

def toJson (m : Material) : Json :=
  .object [(some "skinMode", .text m.skinMode.name),
    (some "textures", .array (m.textures.map TextureStage.toJson))]

def parse (text : String) : Outcome Material :=
  Outcome.ofOption ((Failure.report .json).during "failed to parse material json")
    ((Json.parse? text).bind ofJson?)

def render (m : Material) : String :=
  m.toJson.render

/-- A texture without a stage of its own reads channel 0 unchanged. -/
def stage (m : Material) (index : UInt8) : TextureStage :=
  m.textures[index.toNat]?.getD {}

/-- Some stage generates its coordinates from an environment reflection. -/
def genReflect (m : Material) : Bool :=
  m.textures.any fun s => s.gen == .envmap

def variant (m : Material) : Variant :=
  ⟨m.skinMode, m.genReflect⟩

end Material

end MaterialGraph
