import MaterialGraph.Failure
import MaterialGraph.NodeType.Basic

/-!
Shader graphs. A node is known by its position and instantiates a node type;
each of its inputs is unbound, bound to a leaf, or wired to an output of a node.
The inputs that an output feeds are recorded at the output as well, in ascending
order, and every operation keeps the two records in step.
-/

namespace MaterialGraph

structure OutputRef where
  node : Nat
  output : Nat
deriving DecidableEq, Inhabited

structure InputRef where
  node : Nat
  input : Nat
deriving DecidableEq, Inhabited

inductive Binding
  | unbound
  | leaf (leaf : Leaf)
  | output (ref : OutputRef)
deriving DecidableEq, Inhabited

structure Node where
  name : String
  type : NodeType
  inputs : List Binding
  /-- Per output, the inputs wired to it. -/
  consumers : List (List InputRef)
deriving DecidableEq, Inhabited

namespace Node

/-- A node without wires. -/
def ofType (name : String) (type : NodeType) : Node :=
  ⟨name, type, type.inputs.map fun _ => .unbound, type.outputs.map fun _ => []⟩

/-- The nodes that feed the inputs, in the order of the inputs. -/
def producers (n : Node) : List Nat :=
  n.inputs.filterMap fun
    | .output ref => some ref.node
    | _ => none

/-- The leaves at the inputs with the pins they feed, in the order of the inputs. -/
def leaves (n : Node) : List (Leaf × Pin) :=
  (n.inputs.zip n.type.inputs).filterMap fun
    | (.leaf l, pin) => some (l, pin)
    | _ => none

end Node

namespace InputRef

def lt (a b : InputRef) : Bool :=
  a.node < b.node || (a.node == b.node && a.input < b.input)

/-- Places an input among ascending ones. -/
def insert (i : InputRef) : List InputRef → List InputRef
  | [] => [i]
  | j :: rest =>
    if i.lt j then i :: j :: rest else if i = j then j :: rest else j :: insert i rest

end InputRef

structure Graph where
  nodes : List Node
deriving DecidableEq, Inhabited

namespace Graph

def empty : Graph :=
  ⟨[]⟩

def size (g : Graph) : Nat :=
  g.nodes.length

def node? (g : Graph) (id : Nat) : Option Node :=
  g.nodes[id]?

/-- The first node of a name. -/
def find? (g : Graph) (name : String) : Option Nat :=
  g.nodes.findIdx? fun n => n.name == name

def binding? (g : Graph) (i : InputRef) : Option Binding :=
  (g.node? i.node).bind fun n => n.inputs[i.input]?

def consumers? (g : Graph) (o : OutputRef) : Option (List InputRef) :=
  (g.node? o.node).bind fun n => n.consumers[o.output]?

/-- Adds a node without wires; its position is the size of the graph. -/
def instantiate (g : Graph) (name : String) (type : NodeType) : Graph :=
  ⟨g.nodes ++ [.ofType name type]⟩

def setInput (g : Graph) (i : InputRef) (b : Binding) : Graph :=
  ⟨g.nodes.modify i.node fun n => { n with inputs := n.inputs.set i.input b }⟩

def modifyConsumers (g : Graph) (o : OutputRef) (f : List InputRef → List InputRef) : Graph :=
  ⟨g.nodes.modify o.node fun n => { n with consumers := n.consumers.modify o.output f }⟩

def checkInput (g : Graph) (i : InputRef) : Except Fault Unit :=
  match g.node? i.node with
  | none => .error (.nodeNotFound i.node)
  | some n => if i.input < n.inputs.length then .ok () else .error (.noSuchInput n.name i.input)

def checkOutput (g : Graph) (o : OutputRef) : Except Fault Unit :=
  match g.node? o.node with
  | none => .error (.nodeNotFound o.node)
  | some n =>
    if o.output < n.consumers.length then .ok () else .error (.noSuchOutput n.name o.output)

/-- Leaves an input unbound. An input that does not exist is left alone. -/
def disconnect (g : Graph) (i : InputRef) : Graph :=
  match g.binding? i with
  | none => g
  | some (.output o) => (g.setInput i .unbound).modifyConsumers o (·.erase i)
  | some _ => g.setInput i .unbound

/-- Leaves every input that an output feeds unbound. -/
def disconnectAll (g : Graph) (o : OutputRef) : Graph :=
  match g.consumers? o with
  | none => g
  | some inputs =>
    inputs.foldl (fun g i => g.setInput i .unbound) (g.modifyConsumers o fun _ => [])

/-- Wires an output to an input, in place of what the input was bound to. -/
def connect (g : Graph) (o : OutputRef) (i : InputRef) : Except Fault Graph := do
  g.checkOutput o
  g.checkInput i
  .ok (((g.disconnect i).setInput i (.output o)).modifyConsumers o (InputRef.insert i))

def bindLeaf (g : Graph) (i : InputRef) (l : Leaf) : Except Fault Graph := do
  g.checkInput i
  .ok ((g.disconnect i).setInput i (.leaf l))

end Graph

end MaterialGraph
