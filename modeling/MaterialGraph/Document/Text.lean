import MaterialGraph.Document.Basic
import MaterialGraph.Json.Parser
import MaterialGraph.Json.Printer

/-!
The text form of shader documents: JSON records, read strictly and written with
every default filled in.
-/

namespace MaterialGraph.Document

def WrittenNode.ofJson? (v : Json) : Option WrittenNode := do
  let r ← v.record? ["type", "in"] false
  let type ← Json.required? r "type" Json.text?
  let inputs ← Json.withDefault? r "in" .empty (Json.table? WrittenBinding.ofJson?)
  some ⟨type, inputs⟩

def WrittenPass.ofJson? (v : Json) : Option WrittenPass := do
  let r ← v.record? ["color", "alpha", "depth"] false
  let color ← Json.optional? r "color" WrittenBinding.ofJson?
  let alpha ← Json.optional? r "alpha" WrittenBinding.ofJson?
  let depth ← Json.optional? r "depth" WrittenBinding.ofJson?
  some ⟨color, alpha, depth⟩

/-- A single precision is tried first, then a table. -/
def SamplerPrecision.ofJson? (v : Json) : Option SamplerPrecision :=
  match v.enum? Precision.ofName? with
  | some p => some (.all p)
  | none => (v.table? (Json.enum? Precision.ofName?)).map .perTexture

def ofJson? (v : Json) : Option Document := do
  let r ← v.record? ["name", "skinMode", "precision", "samplerPrecision", "nodes", "passes"] false
  let name ← Json.required? r "name" Json.text?
  let skinMode ← Json.withDefault? r "skinMode" .default (Json.enum? SkinMode.ofName?)
  let precision ← Json.withDefault? r "precision" .low (Json.enum? Precision.ofName?)
  let samplerPrecision ← Json.optional? r "samplerPrecision" SamplerPrecision.ofJson?
  let nodes ← Json.withDefault? r "nodes" .empty (Json.table? WrittenNode.ofJson?)
  let passes ← Json.withDefault? r "passes" .empty (Json.table? WrittenPass.ofJson?)
  some ⟨name, skinMode, precision, samplerPrecision, nodes, passes⟩

def tableToJson {α : Type} (write : α → Json) (t : Table α) : Json :=
  .object (t.entries.map fun (name, value) => (some name, write value))

def optionToJson {α : Type} (write : α → Json) : Option α → Json
  | none => .null
  | some a => write a

def WrittenNode.toJson (n : WrittenNode) : Json :=
  .object [(some "type", .text n.type), (some "in", tableToJson WrittenBinding.toJson n.inputs)]

def WrittenPass.toJson (p : WrittenPass) : Json :=
  .object [(some "color", optionToJson WrittenBinding.toJson p.color),
    (some "alpha", optionToJson WrittenBinding.toJson p.alpha),
    (some "depth", optionToJson WrittenBinding.toJson p.depth)]

def SamplerPrecision.toJson : SamplerPrecision → Json
  | all p => .text p.name
  | perTexture table => tableToJson (fun p => .text (Precision.name p)) table

def toJson (d : Document) : Json :=
  .object [(some "name", .text d.name), (some "skinMode", .text d.skinMode.name),
    (some "precision", .text d.precision.name),
    (some "samplerPrecision", optionToJson SamplerPrecision.toJson d.samplerPrecision),
    (some "nodes", tableToJson WrittenNode.toJson d.nodes),
    (some "passes", tableToJson WrittenPass.toJson d.passes)]

def render (d : Document) : String :=
  d.toJson.render

def parse (text : String) : Outcome Document :=
  match (Json.parse? text).bind ofJson? with
  | none => .error ((Failure.report .json).during "failed to parse shader json")
  | some d =>
    if d.faults.isEmpty then .ok d else .error (.fault (.invalidDocument d.name d.faults))

end MaterialGraph.Document
