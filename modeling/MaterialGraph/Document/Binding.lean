import MaterialGraph.CompileError
import MaterialGraph.Json.Reader

/-!
Bindings as documents write them. A binding names either an output of a node or
a leaf; which of the two is decided by the fields that are given.
-/

namespace MaterialGraph.Document

structure WrittenBinding where
  node : Option String := none
  output : Option String := none
  source : Option String := none
  index : Option Int := none
deriving DecidableEq, Inhabited

/-- What a binding names. -/
inductive Target
  | node (name output : String)
  | leaf (leaf : Leaf)
deriving DecidableEq, Inhabited

/-- The output name that stands for the returned output of a node. -/
def returnOutput : String := "r"

namespace WrittenBinding

def ofJson? (v : Json) : Option WrittenBinding := do
  let r ← v.record? ["node", "output", "source", "index"] false
  let node ← Json.optional? r "node" Json.text?
  let output ← Json.optional? r "output" Json.text?
  let source ← Json.optional? r "source" Json.text?
  let index ← Json.optional? r "index" Json.int64?
  some ⟨node, output, source, index⟩

/-- Only the fields that are given are written. -/
def toJson (b : WrittenBinding) : Json :=
  .object ((b.node.map fun s => (some "node", .text s)).toList ++
    (b.output.map fun s => (some "output", .text s)).toList ++
    (b.source.map fun s => (some "source", .text s)).toList ++
    (b.index.map fun i => (some "index", .int i)).toList)

def ofLeaf (l : Leaf) : WrittenBinding :=
  { source := some l.source.name, index := some l.index.toNat }

/-- A node binding takes its returned output unless it names one; a leaf has
index 0 unless it gives one. -/
def classify (b : WrittenBinding) : Except BindingFault Target :=
  match b.node, b.source with
  | some node, none =>
    if b.index.isSome then .error .nodeWithIndex
    else .ok (.node node (b.output.getD returnOutput))
  | none, some source =>
    if b.output.isSome then .error .leafWithOutput
    else
      match MaterialSource.ofName? source with
      | none => .error (.unknownSource source)
      | some s =>
        let index := b.index.getD 0
        if 0 ≤ index ∧ index ≤ 255 then .ok (.leaf ⟨s, UInt8.ofNat index.toNat⟩)
        else .error (.indexOutOfRange index)
  | some _, some _ => .error .nodeAndSource
  | none, none => .error .neither

end WrittenBinding

end MaterialGraph.Document
