import MaterialGraph.Body.Basic
import MaterialGraph.PassGraph.Basic

/-!
The body of a pass. Every node is called once, after the nodes that feed it, and
each of its outputs has a temporary; temporaries are numbered in the order of
their declarations.
-/

namespace MaterialGraph.Body

/-- The statements so far. An emitted node is recorded with the temporary of its
first output; those of the other outputs follow it. -/
structure Emission where
  next : Nat := 0
  firsts : List (Nat × Nat) := []
  statements : List Statement := []
deriving DecidableEq, Inhabited

/-- Places an argument at its register. One already there is replaced or kept. -/
def place (replace : Bool) (register : Int) (a : Argument) :
    List (Int × Argument) → List (Int × Argument)
  | [] => [(register, a)]
  | (r, b) :: rest =>
    if register < r then (register, a) :: (r, b) :: rest
    else if register = r then (r, if replace then a else b) :: rest
    else (r, b) :: place replace register a rest

/-- The outputs of a node with their temporaries. -/
def outputTemps (n : Node) (first : Nat) : List (Pin × Nat) :=
  n.type.outputs.zip (List.range' first n.type.outputs.length)

/-- The last output with the return register is the one returned. -/
def resultTemp? (outputs : List (Pin × Nat)) : Option Nat :=
  (outputs.filter fun o => o.1.register == returnRegister).getLast?.map (·.2)

/-- The last output with a register is passed there. -/
def outputArguments (outputs : List (Pin × Nat)) : List (Int × Argument) :=
  (outputs.filter fun o => o.1.register != returnRegister).foldl
    (fun args o => place true o.1.register (.output o.2) args) []

/-- The temporary of an output, if its node is emitted. -/
def Emission.temp? (g : Graph) (e : Emission) (o : OutputRef) : Option Nat :=
  match e.firsts.lookup o.node, g.node? o.node with
  | some first, some n => if o.output < n.type.outputs.length then some (first + o.output) else none
  | _, _ => none

def producerName (g : Graph) (o : OutputRef) : String :=
  (g.node? o.node).elim "" Node.name

/-- The operand that an input is bound to; an unbound input has none. -/
def operand? (g : Graph) (access : Leaf → Outcome String) (e : Emission) :
    Binding → Outcome (Option Operand)
  | .unbound => .ok none
  | .leaf l => (access l).map fun s => some (.text s)
  | .output o =>
    match e.temp? g o with
    | some n => .ok (some (.temp n))
    | none => .error (.fault (.usedBeforeEmission (producerName g o)))

/-- Passes inputs to the registers that are still free. -/
def inputArguments (g : Graph) (access : Leaf → Outcome String) (e : Emission) :
    List (Binding × Pin) → List (Int × Argument) → Outcome (List (Int × Argument))
  | [], args => .ok args
  | (b, pin) :: rest, args => do
    match ← operand? g access e b with
    | some value => inputArguments g access e rest (place false pin.register (.input value) args)
    | none => inputArguments g access e rest args

/-- Declares the outputs of a node and calls its function. -/
def emitCall (g : Graph) (access : Leaf → Outcome String) (id : Nat) (n : Node) (e : Emission) :
    Outcome Emission := do
  let outputs := outputTemps n e.next
  let declarations := outputs.map fun o => Statement.declare o.1.type o.2
  let e' : Emission :=
    ⟨e.next + outputs.length, e.firsts ++ [(id, e.next)], e.statements ++ declarations⟩
  let arguments ← inputArguments g access e' (n.inputs.zip n.type.inputs) (outputArguments outputs)
  let call : Call := ⟨resultTemp? outputs, n.type.function, n.type.aliasName.isNone, arguments⟩
  .ok { e' with statements := e'.statements ++ [.call call] }

mutual

/-- Emits a node after its producers. The nodes on the way to it are no longer
available; meeting one of them again closes a cycle. -/
def emitNode (g : Graph) (access : Leaf → Outcome String) (available : List Nat) (id : Nat)
    (e : Emission) : Outcome Emission :=
  match g.node? id with
  | none => .ok e
  | some n =>
    if (e.firsts.lookup id).isSome then .ok e
    else if h : id ∈ available then
      have : (available.erase id).length < available.length := by
        have := List.length_pos_of_mem h
        rw [List.length_erase_of_mem h]
        omega
      (emitProducers g access (available.erase id) n (n.inputs.zip n.type.inputs) e).bind
        (emitCall g access id n)
    else .error (.compile (.recursiveNode n.name))
termination_by (available.length, 0)

def emitProducers (g : Graph) (access : Leaf → Outcome String) (available : List Nat) (n : Node)
    (inputs : List (Binding × Pin)) (e : Emission) : Outcome Emission :=
  match inputs with
  | [] => .ok e
  | (.leaf _, _) :: rest => emitProducers g access available n rest e
  | (.unbound, pin) :: _ => .error (.compile (.unboundInput n.name n.type.name pin.name))
  | (.output o, _) :: rest =>
    (emitNode g access available o.node e).bind (emitProducers g access available n rest)
termination_by (available.length, inputs.length + 1)

end

def emitOutput (p : PassGraph) (access : Leaf → Outcome String) (o : Output) (field : Field)
    (e : Emission) : Outcome Emission :=
  match p.output o with
  | .unbound => .ok e
  | .leaf l => do
    let s ← access l
    .ok { e with statements := e.statements ++ [.assign field (.text s)] }
  | .output ref => do
    let e ← emitNode p.graph access p.graph.ids ref.node e
    match e.temp? p.graph ref with
    | some n => .ok { e with statements := e.statements ++ [.assign field (.temp n)] }
    | none => .error (.fault (.outputNotEmitted o))

/-- The color of a pass that gives none. -/
def white : Operand :=
  .text "PRECISION_COLOR_TYPE(1.0, 1.0, 1.0, 1.0)"

/-- With an alpha output, the color is written without its fourth component. -/
def ofPass (p : PassGraph) (access : Leaf → Outcome String) : Outcome Body := do
  let e ← if p.color = .unbound then .ok ⟨0, [], [.assign .color white]⟩
    else emitOutput p access .color (if p.alpha = .unbound then .color else .colorXyz) {}
  let e ← emitOutput p access .alpha .colorW e
  let e ← emitOutput p access .depth .depth e
  .ok e.statements

end MaterialGraph.Body
