import Mathlib.Data.List.Forall2
import Mathlib.Logic.Relation
import MaterialGraph.Document.Basic
import MaterialGraph.PassGraph.Basic
import MaterialGraph.Proofs.Table

/-!
References of a document: which nodes its bindings refer to, what a written
binding stands for in a graph of its nodes, and what a document has to satisfy
for a pass to be loaded from it. The types of the nodes are given by their names.
-/

namespace MaterialGraph

open Relation (TransGen ReflTransGen)

/-- The output of a type that a document names. -/
def NodeType.namedOutput? (t : NodeType) (output : String) : Option Nat :=
  if output = Document.returnOutput then t.findOutputRegister? returnRegister
  else t.findOutput? output

namespace Document

variable {d : Document} {types : String → Outcome NodeType} {w : WrittenPass} {b : WrittenBinding}

/-- Whether a binding is written to take an output of a node. -/
def WrittenBinding.RefersTo (b : WrittenBinding) (name : String) : Prop :=
  ∃ output, b.classify = .ok (.node name output)

/-- Whether an input of node `b` is written to take an output of node `a`. -/
def Refers (d : Document) (a b : String) : Prop :=
  ∃ n, d.nodes.get? b = some n ∧ ∃ e ∈ n.inputs.entries, e.2.RefersTo a

/-- Whether some output of a pass takes its value from a node, directly or through others. -/
def Reaches (d : Document) (w : WrittenPass) (name : String) : Prop :=
  ∃ o b a, w.output? o = some b ∧ b.RefersTo a ∧ ReflTransGen d.Refers name a

/-- What a written binding stands for in a graph whose nodes are those of the document. -/
inductive Stands (d : Document) (types : String → Outcome NodeType) (b : WrittenBinding) :
    Binding → Prop
  | leaf {l : Leaf} (h : b.classify = .ok (.leaf l)) : Stands d types b (.leaf l)
  | output {name output : String} {id k : Nat} {n : WrittenNode} {t : NodeType}
      (h : b.classify = .ok (.node name output)) (hn : d.nodes.entries[id]? = some (name, n))
      (ht : types n.type = .ok t) (hk : t.namedOutput? output = some k) :
      Stands d types b (.output ⟨id, k⟩)

/-- Whether an output of a node of the document is a sampler. -/
def SamplerAt (d : Document) (types : String → Outcome NodeType) (ref : OutputRef) : Prop :=
  ∃ name n t pin, d.nodes.entries[ref.node]? = some (name, n) ∧ types n.type = .ok t ∧
    t.outputs[ref.output]? = some pin ∧ pin.type.isSampler

/-- A node whose inputs can be wired: each of them is written and stands for
something, nothing else is written, and the node lies on no cycle. -/
structure Wireable (d : Document) (types : String → Outcome NodeType) (name : String) : Prop where
  stands : ∀ n, d.nodes.get? name = some n → ∀ e ∈ n.inputs.entries, ∃ target,
    d.Stands types e.2 target
  keys : ∀ n t, d.nodes.get? name = some n → types n.type = .ok t →
    ∀ key, n.inputs.contains key ↔ key ∈ t.inputs.map Pin.name
  acyclic : ¬TransGen d.Refers name name

/-- A document from which a pass can be loaded. -/
structure Loadable (d : Document) (types : String → Outcome NodeType) (w : WrittenPass) :
    Prop where
  known : ∀ e ∈ d.nodes.entries, ∃ t, types e.2.type = .ok t
  outputs : ∀ o b, w.output? o = some b → ∃ target, d.Stands types b target
  samplers : ∀ o b ref, w.output? o = some b → d.Stands types b (.output ref) →
    ¬d.SamplerAt types ref
  wireable : ∀ name, d.Reaches w name → d.Wireable types name

/-- The nodes of a graph are those of the document, in the same order. -/
def NodesMatch (d : Document) (types : String → Outcome NodeType) (g : Graph) : Prop :=
  List.Forall₂ (fun e n => n.name = e.1 ∧ types e.2.type = .ok n.type ∧
    n.inputs.length = n.type.inputs.length) d.nodes.entries g.nodes

/-- A pass graph that is bound as the document writes it. -/
structure BoundAsWritten (d : Document) (types : String → Outcome NodeType) (w : WrittenPass)
    (p : PassGraph) : Prop where
  nodes : d.NodesMatch types p.graph
  absent : ∀ o, w.output? o = none → p.output o = .unbound
  written : ∀ o b, w.output? o = some b → d.Stands types b (p.output o)
  reached : ∀ n ∈ p.graph.nodes, d.Reaches w n.name →
    ∀ (k : Nat) pin, n.type.inputs[k]? = some pin → ∃ written b target,
      d.nodes.get? n.name = some written ∧ written.inputs.get? pin.name = some b ∧
        n.inputs[k]? = some target ∧ d.Stands types b target
  unreached : ∀ n ∈ p.graph.nodes, ¬d.Reaches w n.name → ∀ target ∈ n.inputs, target = .unbound

/-- What a document writes for a pass, if it writes some output. -/
def written? (d : Document) (pass : Pass) : Option WrittenPass :=
  (d.pass? pass).filter fun w => !w.isEmpty

/-- A binding that is written for a leaf names the leaf. -/
theorem WrittenBinding.classify_ofLeaf (l : Leaf) :
    (WrittenBinding.ofLeaf l).classify = .ok (.leaf l) := by
  obtain ⟨source, index⟩ := l
  have hsource : MaterialSource.ofName? source.name = some source := by cases source <;> decide
  have hindex : (0 : Int) ≤ index.toNat ∧ (index.toNat : Int) ≤ 255 := by
    have hlt := index.toNat_lt
    omega
  simp [WrittenBinding.classify, WrittenBinding.ofLeaf, hsource, hindex]

/-- A written binding stands for one binding at most. -/
theorem Stands.unique {c c' : Binding} (h : d.Stands types b c) (h' : d.Stands types b c') :
    c = c' := by
  cases h with
  | leaf hl =>
    cases h' with
    | leaf hl' =>
      cases hl.symm.trans hl'
      rfl
    | output hb' => cases hl.symm.trans hb'
  | output hb hn ht hk =>
    cases h' with
    | leaf hl' => cases hb.symm.trans hl'
    | output hb' hn' ht' hk' =>
      cases hb.symm.trans hb'
      obtain rfl := Table.position_unique hn hn' rfl
      cases hn.symm.trans hn'
      cases ht.symm.trans ht'
      cases hk.symm.trans hk'
      rfl

/-- A binding that refers to a node stands for an output at the position of the node. -/
theorem Stands.output_of_refersTo {c : Binding} {name : String} (h : d.Stands types b c)
    (hb : b.RefersTo name) :
    ∃ ref n, c = .output ref ∧ d.nodes.entries[ref.node]? = some (name, n) := by
  obtain ⟨output, hb⟩ := hb
  cases h with
  | leaf hl => cases hb.symm.trans hl
  | @output _ _ id k n _ hb' hn =>
    cases hb.symm.trans hb'
    exact ⟨⟨id, k⟩, n, rfl, hn⟩

theorem Reaches.refers {x y : String} (h : d.Reaches w y) (hx : d.Refers x y) : d.Reaches w x := by
  obtain ⟨o, b, a, ho, hb, hpath⟩ := h
  exact ⟨o, b, a, ho, hb, .head hx hpath⟩

end Document

end MaterialGraph
