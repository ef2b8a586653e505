import MaterialGraph.Failure
import MaterialGraph.Json.Parser
import MaterialGraph.Json.Reader

/-!
Configuration of the compiler. Limits are the capacities of the hardware; a slot
number is a byte and one byte value marks unused slots, which bounds the limits
that a configuration may give.
-/

namespace MaterialGraph

structure Limits where
  maxTextures : Nat := 6
  maxAttribArrays : Nat := 8
  maxLights : Nat := 4
  maxTexCoords : Nat := 6
deriving DecidableEq, Inhabited

namespace Limits

def ofJson? (v : Json) : Option Limits := do
  let r ← v.record? ["max_textures", "max_attrib_arrays", "max_lights", "max_texcoords"] true
  let textures ← Json.withDefault? r "max_textures" 6 Json.uint64?
  let arrays ← Json.withDefault? r "max_attrib_arrays" 8 Json.uint64?
  let lights ← Json.withDefault? r "max_lights" 4 Json.uint64?
  let texCoords ← Json.withDefault? r "max_texcoords" 6 Json.uint64?
  some ⟨textures, arrays, lights, texCoords⟩

def named (l : Limits) : List (String × Nat) :=
  [("max_textures", l.maxTextures), ("max_attrib_arrays", l.maxAttribArrays),
    ("max_lights", l.maxLights), ("max_texcoords", l.maxTexCoords)]

/-- Every limit is at least 1 and at most 254. -/
def check (l : Limits) : Except Fault Unit :=
  match l.named.find? fun e => e.2 == 0 || 254 < e.2 with
  | some (name, value) => .error (.limitOutOfRange name value)
  | none => .ok ()

end Limits

structure Config where
  limits : Limits := {}
  /-- Assembled text goes through the optimizer, if there is one. -/
  optimize : Bool := true
  gles : Bool := false
  /-- Fragments that follow the defines. -/
  prelude : List String := ["Common.glsl", "Shader.glsl"]
  artifactDir : Option String := none
deriving DecidableEq, Inhabited

namespace Config

def ofJson? (v : Json) : Option Config := do
  let r ← v.record? ["limits", "optimize", "gles", "prelude", "artifact_dir"] true
  let limits ← Json.withDefault? r "limits" {} Limits.ofJson?
  let optimize ← Json.withDefault? r "optimize" true Json.bool?
  let gles ← Json.withDefault? r "gles" false Json.bool?
  let prelude ← Json.withDefault? r "prelude" ["Common.glsl", "Shader.glsl"]
    (Json.list? Json.text?)
  let artifactDir ← Json.optional? r "artifact_dir" Json.text?
  some ⟨limits, optimize, gles, prelude, artifactDir⟩

def parse (text : String) : Outcome Config :=
  match (Json.parse? text).bind ofJson? with
  | none => .error ((Failure.report .json).during "failed to parse compiler config json")
  | some c => (c.limits.check.mapError Failure.fault).map fun _ => c

end Config

end MaterialGraph
