import MaterialGraph.Document.Binding
import MaterialGraph.Failure
import MaterialGraph.Precision
import MaterialGraph.Variant

/-!
Shader documents: the nodes of a shader with the bindings of their inputs, and
per pass the bindings of the outputs that the pass writes.
-/

namespace MaterialGraph

namespace Document

structure WrittenNode where
  type : String
  inputs : Table WrittenBinding
deriving DecidableEq, Inhabited

structure WrittenPass where
  color : Option WrittenBinding := none
  alpha : Option WrittenBinding := none
  depth : Option WrittenBinding := none
deriving DecidableEq, Inhabited

def WrittenPass.output? (p : WrittenPass) : Output → Option WrittenBinding
  | .color => p.color
  | .alpha => p.alpha
  | .depth => p.depth

def WrittenPass.isEmpty (p : WrittenPass) : Bool :=
  Output.all.all fun o => (p.output? o).isNone

/-- Sampler precisions: one for all textures, or some by texture index. -/
inductive SamplerPrecision
  | all (p : Precision)
  | perTexture (table : Table Precision)
deriving DecidableEq, Inhabited

end Document

structure Document where
  name : String
  skinMode : SkinMode := .default
  precision : Precision := .low
  samplerPrecision : Option Document.SamplerPrecision := none
  nodes : Table Document.WrittenNode := .empty
  passes : Table Document.WrittenPass := .empty
deriving DecidableEq, Inhabited

namespace Document

def digitsValue (digits : List Char) : Nat :=
  digits.foldl (fun n d => n * 10 + (d.toNat - '0'.toNat)) 0

def dropPlus : List Char → List Char
  | '+' :: rest => rest
  | s => s

/-- A byte in decimal digits; a plus sign and leading zeros are allowed. -/
def isTextureIndex (key : String) : Bool :=
  let digits := dropPlus key.toList
  !digits.isEmpty && digits.all Char.isDigit && digitsValue digits ≤ 255

/-- The faults that show without knowing node types. -/
def faults (d : Document) : List DocumentFault :=
  (d.passes.names.filter fun n => (Pass.ofName? n).isNone).map .unknownPass ++
  match d.samplerPrecision with
  | some (.perTexture table) =>
    (table.names.filter fun k => !isTextureIndex k).map .samplerKey
  | _ => []

/-- What the document writes for a pass. The preview pass falls back to the
default pass. -/
def pass? (d : Document) (p : Pass) : Option WrittenPass :=
  match d.passes.get? p.name with
  | some w => some w
  | none => if p = .preview then d.passes.get? Pass.default.name else none

/-- The precision of a texture's sampler, that of the shader unless given. -/
def precisionOfTexture (d : Document) (index : UInt8) : Precision :=
  match d.samplerPrecision with
  | none => d.precision
  | some (.all p) => p
  | some (.perTexture table) => (table.get? (toString index)).getD d.precision

end Document

end MaterialGraph
