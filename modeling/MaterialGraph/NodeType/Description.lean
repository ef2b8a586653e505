import MaterialGraph.CompileError
import MaterialGraph.Json.Parser
import MaterialGraph.Json.Reader
import MaterialGraph.NodeType.Basic

/-!
Descriptions of node types. A description is a JSON record of the outputs, the
inputs and the alias of a type; its pins are kept in the order of their names.
All faults of a description are reported together.
-/

namespace MaterialGraph.NodeType

def TypeTag.resolve? : TypeTag → Option BasicType
  | name tag => BasicType.parse? tag
  | index i => BasicType.ofIndex? i

def TypeTag.ofJson? : Json → Option TypeTag
  | .text (some s) => some (.name s)
  | v => v.int64?.map .index

structure PinDescription where
  tag : TypeTag
  register : Int
  semantic : Option String
deriving DecidableEq, Inhabited

def PinDescription.ofJson? (v : Json) : Option PinDescription := do
  let r ← v.record? ["t", "r", "s"] false
  let tag ← Json.required? r "t" TypeTag.ofJson?
  let register ← Json.required? r "r" Json.int64?
  let semantic ← Json.optional? r "s" Json.text?
  some ⟨tag, register, semantic⟩

structure Description where
  outputs : Option (Table PinDescription)
  inputs : Table PinDescription
  aliasName : Option String
deriving DecidableEq, Inhabited

namespace Description

/-- Written as an array, a description gives at least its outputs. -/
def ofJson? (v : Json) : Option Description := do
  let r ← v.record? ["Outputs", "Inputs", "Alias"] false
  let outputs ← match v with
    | .array [] => none
    | _ => Json.optional? r "Outputs" (Json.table? PinDescription.ofJson?)
  let inputs ← Json.withDefault? r "Inputs" .empty (Json.table? PinDescription.ofJson?)
  let aliasName ← Json.optional? r "Alias" Json.text?
  some ⟨outputs, inputs, aliasName⟩

/-- ASCII letters, digits and underscores, not starting with a digit. -/
def isIdentifier (s : String) : Bool :=
  match s.toList with
  | [] => false
  | c :: rest => (c.isAlpha || c == '_') && rest.all fun d => d.isAlphanum || d == '_'

/-- The faults of one pin, in the order in which they are found. A pin without a
known type or with a register beyond 32 bits is dropped. -/
def checkPin (side : Side) (name : String) (d : PinDescription) : List PinFault × Option Pin :=
  match d.tag.resolve? with
  | none => ([.unknownType side name d.tag], none)
  | some type =>
    if d.register < -0x80000000 ∨ 0x80000000 ≤ d.register then
      ([.registerOutOfRange side name d.register], none)
    else
      (if isIdentifier name then [] else [.notIdentifier side name],
        some ⟨name, type, d.semantic, d.register⟩)

def checkPins (side : Side) (t : Table PinDescription) : List (List PinFault × Option Pin) :=
  t.entries.map fun (name, d) => checkPin side name d

/-- Input registers are not negative and pairwise distinct. -/
def inputFaults (seen : List Int) : List Pin → List PinFault
  | [] => []
  | p :: rest =>
    if p.register < 0 then .negativeRegister p.name p.register :: inputFaults seen rest
    else if seen.contains p.register then
      .reusedRegister p.name p.register :: inputFaults seen rest
    else inputFaults (p.register :: seen) rest

/-- Only the first output with an invalid register is reported. -/
def outputFaults (outputs : List Pin) : List PinFault :=
  (if 1 < (outputs.filter fun p => p.register == returnRegister).length then [.severalReturns]
    else []) ++
  ((outputs.find? fun p => p.register < returnRegister).map fun p =>
    PinFault.invalidRegister p.name p.register).toList

def aliasFaults : Option String → List PinFault
  | some a => if isIdentifier a then [] else [.invalidAlias a]
  | none => []

def check (name : String) (d : Description) : Except Malformation NodeType :=
  match d.outputs with
  | none => .error .noOutputs
  | some outputTable =>
    let inputs := checkPins .input d.inputs
    let outputs := checkPins .output outputTable
    let inputPins := inputs.filterMap (·.2)
    let outputPins := outputs.filterMap (·.2)
    let faults := inputs.flatMap (·.1) ++ outputs.flatMap (·.1) ++ inputFaults [] inputPins ++
      outputFaults outputPins ++ aliasFaults d.aliasName
    if faults.isEmpty then .ok ⟨name, inputPins, outputPins, d.aliasName⟩
    else .error (.pins faults)

end Description

/-- The node type of a given name that a text describes. -/
def parse (name text : String) : Except CompileError NodeType :=
  match (Json.parse? text).bind Description.ofJson? with
  | none => .error (.malformedNodeType name .notJson)
  | some d => (d.check name).mapError (.malformedNodeType name)

end MaterialGraph.NodeType
