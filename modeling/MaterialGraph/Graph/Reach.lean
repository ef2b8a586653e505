import MaterialGraph.Graph.Basic

/-!
The nodes from which a node receives values, directly or through others. They
are visited depth first with an explicit stack, the producer of the last input
first.
-/

namespace MaterialGraph.Graph

/-- Walks with a stack of nodes to visit. The nodes not visited yet shrink with
every visit, and the nodes visited come in the order of their visits. -/
def walk (g : Graph) (unvisited stack : List Nat) : List Nat :=
  match stack with
  | [] => []
  | id :: rest =>
    if h : id ∈ unvisited then
      have : (unvisited.erase id).length < unvisited.length := by
        have := List.length_pos_of_mem h
        rw [List.length_erase_of_mem h]
        omega
      let producers := (g.node? id).elim [] Node.producers
      id :: walk g (unvisited.erase id) (producers.reverse ++ rest)
    else walk g unvisited rest
termination_by (unvisited.length, stack.length)

/-- The nodes visited from some starts, one start after the other. -/
def walkFrom (g : Graph) (unvisited : List Nat) : List Nat → List Nat
  | [] => []
  | start :: rest =>
    let visited := g.walk unvisited [start]
    visited ++ g.walkFrom (unvisited.filter fun id => !visited.contains id) rest

def ids (g : Graph) : List Nat :=
  List.range g.size

/-- A node and the nodes it receives values from, in ascending order. -/
def reachable (g : Graph) (start : Nat) : List Nat :=
  let visited := g.walk g.ids [start]
  g.ids.filter visited.contains

end MaterialGraph.Graph
