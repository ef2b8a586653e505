import MaterialGraph.PassGraph.Basic
import MaterialGraph.Proofs.Graph.Dependence

/-!
The part of a pass graph that its outputs depend on.
-/

namespace MaterialGraph.PassGraph

open Relation (ReflTransGen)

variable {p : PassGraph} {a b : Nat}

/-- Whether some output takes its value from a node, directly or through others. -/
def Live (p : PassGraph) (id : Nat) : Prop :=
  ∃ o ref, p.output o = .output ref ∧ ReflTransGen p.graph.Feeds id ref.node

/-- Whether a leaf is bound to an output or to an input of a live node. -/
def LiveLeaf (p : PassGraph) (l : Leaf) : Prop :=
  (∃ o, p.output o = .leaf l) ∨
    ∃ id n, p.Live id ∧ p.graph.node? id = some n ∧ .leaf l ∈ n.inputs

theorem live_of_output {o : Output} {ref : OutputRef} (h : p.output o = .output ref) :
    p.Live ref.node :=
  ⟨o, ref, h, .refl⟩

theorem Live.feeder (h : p.Live b) (ha : p.graph.Feeds a b) : p.Live a := by
  obtain ⟨o, ref, ho, hpath⟩ := h
  exact ⟨o, ref, ho, .head ha hpath⟩

/-- Live nodes are in every set that has the nodes of the outputs and, with a node, those
that feed it. -/
theorem Live.mem_of_closed {S : Nat → Prop} {id : Nat} (h : p.Live id)
    (houtputs : ∀ o ref, p.output o = .output ref → S ref.node)
    (hfeeds : ∀ a b, p.graph.Feeds a b → S b → S a) : S id := by
  obtain ⟨o, ref, ho, hpath⟩ := h
  induction hpath using ReflTransGen.head_induction_on with
  | refl => exact houtputs o ref ho
  | head hac _ ih => exact hfeeds _ _ hac ih

end MaterialGraph.PassGraph
