import MaterialGraph.Graph.Reach
import MaterialGraph.Usage

/-!
The graph of one rendering pass together with what its outputs are bound to, the
nodes that the outputs depend on, and the usage of those nodes.
-/

namespace MaterialGraph

structure PassGraph where
  pass : Pass
  graph : Graph
  color : Binding := .unbound
  alpha : Binding := .unbound
  depth : Binding := .unbound
deriving DecidableEq, Inhabited

namespace PassGraph

def output (p : PassGraph) : Output → Binding
  | .color => p.color
  | .alpha => p.alpha
  | .depth => p.depth

/-- The outputs that the pass writes. -/
def outputs (p : PassGraph) : OutputSet :=
  OutputSet.ofList (Output.all.filter fun o => p.output o != .unbound)

/-- The nodes that outputs are wired to, in the order of the outputs. -/
def starts (p : PassGraph) : List Nat :=
  Output.all.filterMap fun o =>
    match p.output o with
    | .output ref => some ref.node
    | _ => none

def outputLeaves (p : PassGraph) : List Leaf :=
  Output.all.filterMap fun o =>
    match p.output o with
    | .leaf l => some l
    | _ => none

/-- The nodes that the outputs depend on, in the order in which they are met. -/
def visits (p : PassGraph) : List Nat :=
  p.graph.walkFrom p.graph.ids p.starts

/-- The nodes that the outputs depend on, in ascending order. -/
def live (p : PassGraph) : List Nat :=
  p.graph.ids.filter p.visits.contains

/-- The leaves at the inputs of the nodes met, with the pins they feed. -/
def inputLeaves (p : PassGraph) : List (Leaf × Pin) :=
  p.visits.flatMap fun id => (p.graph.node? id).elim [] Node.leaves

def usage (p : PassGraph) : Usage :=
  p.inputLeaves.foldl (fun u e => (u.add e.1).addTextureType e.1 e.2.type)
    (Usage.ofLeaves p.outputLeaves)

end PassGraph

end MaterialGraph
