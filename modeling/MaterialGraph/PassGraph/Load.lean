import MaterialGraph.Document.Basic
import MaterialGraph.PassGraph.Basic
import MaterialGraph.Registry

/-!
Pass graphs of documents. Every node of the document becomes a node of the
graph; then the bindings are followed from the outputs of the pass, and the
inputs of the nodes that are met are wired as the document says.
-/

namespace MaterialGraph.PassGraph

/-- The graph wired so far and the nodes whose inputs are wired. -/
structure Wiring where
  graph : Graph
  wired : List Nat := []
deriving DecidableEq, Inhabited

/-- The output of a node that a binding names. -/
def namedOutput (g : Graph) (site name output : String) : Except CompileError OutputRef :=
  match g.find? name with
  | none => .error (.malformedBinding site (.noSuchNode name))
  | some id =>
    let outputs : NodeType := (g.node? id).elim default Node.type
    if output = Document.returnOutput then
      match outputs.findOutputRegister? returnRegister with
      | some i => .ok ⟨id, i⟩
      | none => .error (.missingReturnRegister name)
    else
      match outputs.findOutput? output with
      | some i => .ok ⟨id, i⟩
      | none => .error (.missingOutput name output)

def classify (site : String) (b : Document.WrittenBinding) : Outcome Document.Target :=
  b.classify.mapError fun fault => .compile (.malformedBinding site fault)

def bind (g : Graph) (i : InputRef) : Binding → Outcome Graph
  | .unbound => .ok g
  | .leaf l => (g.bindLeaf i l).mapError .fault
  | .output o => (g.connect o i).mapError .fault

mutual

/-- The graph binding for a written one, after the node that it names is wired. -/
def wireBinding (nodes : List Document.WrittenNode) (available : List Nat) (site : String)
    (b : Document.WrittenBinding) (w : Wiring) : Outcome (Binding × Wiring) :=
  match classify site b with
  | .error e => .error e
  | .ok (.leaf l) => .ok (.leaf l, w)
  | .ok (.node name output) =>
    match namedOutput w.graph site name output with
    | .error e => .error (.compile e)
    | .ok ref => (wireNode nodes available ref.node w).map fun w => (.output ref, w)
termination_by (available.length, 1)

/-- Wires the inputs of a node unless they are wired. The nodes on the way to it
are no longer available; meeting one of them again closes a cycle. -/
def wireNode (nodes : List Document.WrittenNode) (available : List Nat) (id : Nat) (w : Wiring) :
    Outcome Wiring :=
  if w.wired.contains id then .ok w
  else
    match w.graph.node? id, nodes[id]? with
    | some n, some written =>
      if h : id ∈ available then
        have : (available.erase id).length < available.length := by
          have := List.length_pos_of_mem h
          rw [List.length_erase_of_mem h]
          omega
        match written.inputs.names.find? fun k => (n.type.findInput? k).isNone with
        | some unknown => .error (.compile (.unknownInput n.name unknown))
        | none =>
          (wireInputs nodes (available.erase id) id n written.inputs n.type.inputs.zipIdx w).map
            fun w => { w with wired := id :: w.wired }
      else .error (.compile (.recursiveNode n.name))
    | _, _ => .error (.fault (.nodeNotFound id))
termination_by (available.length, 0)

def wireInputs (nodes : List Document.WrittenNode) (available : List Nat) (id : Nat) (n : Node)
    (written : Table Document.WrittenBinding) (pins : List (Pin × Nat)) (w : Wiring) :
    Outcome Wiring :=
  match pins with
  | [] => .ok w
  | (pin, i) :: rest =>
    match written.get? pin.name with
    | none => .error (.compile (.missingInput n.name n.type.name pin.name))
    | some b =>
      match wireBinding nodes available (n.name ++ "." ++ pin.name) b w with
      | .error e => .error e
      | .ok (binding, w) =>
        match bind w.graph ⟨id, i⟩ binding with
        | .error e => .error e
        | .ok g => wireInputs nodes available id n written rest { w with graph := g }
termination_by (available.length, pins.length + 2)

end

/-- Whether a binding takes its value from a sampler output. -/
def isSampler (g : Graph) : Binding → Bool
  | .output ref =>
    ((g.node? ref.node).bind fun n => n.type.outputs[ref.output]?).any fun pin => pin.type.isSampler
  | _ => false

/-- Wires what an output of the pass depends on. A pass cannot write a sampler. -/
def wireOutput (d : Document) (pass : Pass) (written : Document.WrittenPass) (o : Output)
    (w : Wiring) : Outcome (Binding × Wiring) :=
  match written.output? o with
  | none => .ok (.unbound, w)
  | some b => do
    let (binding, w) ← Outcome.during ("shader '" ++ d.name ++ "' pass " ++ pass.name)
      (wireBinding d.nodes.values w.graph.ids (pass.name ++ "." ++ o.key) b w)
    if isSampler w.graph binding then
      Outcome.during ("shader '" ++ d.name ++ "'") (.error (.compile (.invalidOutput pass o)))
    else .ok (binding, w)

/-- The nodes of a document without wires, in the order of their names. -/
def instantiate (resolver : Resolver) (shader : String) :
    List (String × Document.WrittenNode) → Graph → Loading Graph
  | [], g => return g
  | (name, written) :: rest, g => do
    let type ← Loading.during ("node '" ++ name ++ "' of shader '" ++ shader ++ "'")
      (Registry.load resolver written.type)
    instantiate resolver shader rest (g.instantiate name type)

def wireOutputs (d : Document) (pass : Pass) (written : Document.WrittenPass) (g : Graph) :
    Outcome PassGraph := do
  let (color, w) ← wireOutput d pass written .color ⟨g, []⟩
  let (alpha, w) ← wireOutput d pass written .alpha w
  let (depth, w) ← wireOutput d pass written .depth w
  .ok ⟨pass, w.graph, color, alpha, depth⟩

/-- The graph of a pass, if the document writes an output for it. -/
def load (resolver : Resolver) (d : Document) (pass : Pass) : Loading (Option PassGraph) := do
  match d.pass? pass with
  | none => return none
  | some written =>
    if written.isEmpty then return none
    else
      let g ← instantiate resolver d.name d.nodes.entries .empty
      let p ← Loading.ofOutcome (wireOutputs d pass written g)
      return some p

end MaterialGraph.PassGraph
