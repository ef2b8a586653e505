import MaterialGraph.Proofs.Graph.Dependence
import MaterialGraph.Proofs.PassGraph.Skeleton

/-!
Nodes that are wired while a graph is loaded. A node that is wired is bound as
the document writes it, and the nodes it refers to are wired. Such a node lies on
no cycle, and a node joins those that are wired once all its inputs are bound.
-/

namespace MaterialGraph

open Relation (TransGen ReflTransGen)
open Document (WrittenBinding WrittenNode)
open Document.Skeleton (IsNode)

namespace Document

variable {d : Document} {id a b : Nat} {name : String}

/-- The name of the node at a position. -/
def nameAt (d : Document) (id : Nat) : String :=
  (d.nodes.entries[id]?).elim "" Prod.fst

theorem nameAt_eq {written : WrittenNode} (h : d.nodes.entries[id]? = some (name, written)) :
    d.nameAt id = name := by
  rw [nameAt, h]
  rfl

theorem entry_of_lt (h : id < d.nodes.size) :
    ∃ written, d.nodes.entries[id]? = some (d.nameAt id, written) := by
  have hlt : id < d.nodes.entries.length := h
  have hentry := List.getElem?_eq_getElem hlt
  generalize d.nodes.entries[id] = e at hentry
  obtain ⟨name, written⟩ := e
  exact ⟨written, by rw [nameAt_eq hentry, hentry]⟩

/-- Whether the node at position `b` is written to take an output of that at `a`. -/
def FeedsAt (d : Document) (a b : Nat) : Prop :=
  d.Refers (d.nameAt a) (d.nameAt b)

theorem transGen_of_feedsAt (h : TransGen d.FeedsAt a b) :
    TransGen d.Refers (d.nameAt a) (d.nameAt b) :=
  h.lift d.nameAt fun _ _ hfeeds => hfeeds

end Document

namespace PassGraph

variable {d : Document} {types : String → Outcome NodeType} {w w' w'' : Wiring} {id : Nat}
  {available : List Nat}

/-- A node that is bound as the document writes it, with the nodes it refers to wired. -/
structure Wiring.Complete (d : Document) (types : String → Outcome NodeType) (w : Wiring)
    (id : Nat) : Prop where
  lt_size : id < d.nodes.size
  wireable : d.Wireable types (d.nameAt id)
  bound : ∀ {e t}, d.nodes.entries[id]? = some e → types e.2.type = .ok t →
    ∀ (k : Nat) pin, t.inputs[k]? = some pin → ∃ b target, e.2.inputs.get? pin.name = some b ∧
      w.graph.binding? ⟨id, k⟩ = some target ∧ d.Stands types b target
  closed : ∀ name, d.Refers name (d.nameAt id) → ∃ i ∈ w.wired, d.nameAt i = name

structure Wiring.Sound (d : Document) (types : String → Outcome NodeType) (w : Wiring) : Prop where
  skeleton : d.Skeleton types w.graph
  complete : ∀ id ∈ w.wired, w.Complete d types id

/-- What wiring adds: available nodes of which the names satisfy `S`, with their
bindings. The nodes that satisfy `own` may be in the course of being wired. -/
structure Wiring.Extends (w : Wiring) (d : Document) (available : List Nat) (S : String → Prop)
    (own : Nat → Prop) (w' : Wiring) : Prop where
  mono : ∀ x ∈ w.wired, x ∈ w'.wired
  fresh : ∀ x ∈ w'.wired, x ∈ w.wired ∨ x ∈ available ∧ S (d.nameAt x)
  frame : ∀ x, ¬own x → x ∈ w.wired ∨ x ∉ w'.wired →
    ∀ k, w'.graph.binding? ⟨x, k⟩ = w.graph.binding? ⟨x, k⟩

namespace Wiring.Extends

variable {S S' : String → Prop} {own : Nat → Prop} {available' : List Nat}

theorem refl (d : Document) (available : List Nat) (S : String → Prop) (own : Nat → Prop)
    (w : Wiring) : w.Extends d available S own w where
  mono _ h := h
  fresh _ h := .inl h
  frame _ _ _ _ := rfl

theorem trans (h : w.Extends d available S own w') (h' : w'.Extends d available S own w'') :
    w.Extends d available S own w'' where
  mono x hx := h'.mono x (h.mono x hx)
  fresh x hx := (h'.fresh x hx).elim (h.fresh x) .inr
  frame x hown hx k := by
    rw [h'.frame x hown (hx.imp_left (h.mono x)) k]
    exact h.frame x hown (hx.imp_right fun hnot hx' => hnot (h'.mono x hx')) k

theorem weaken (h : w.Extends d available S (fun _ => False) w')
    (havailable : ∀ x ∈ available, x ∈ available') (hS : ∀ x, S x → S' x) :
    w.Extends d available' S' own w' where
  mono := h.mono
  fresh x hx := (h.fresh x hx).imp_right fun hx' => ⟨havailable x hx'.1, hS _ hx'.2⟩
  frame x _ := h.frame x id

end Wiring.Extends

theorem Wiring.Complete.mono {S : String → Prop} {own : Nat → Prop} (h : w.Complete d types id)
    (hx : w.Extends d available S own w') (hown : ¬own id) (hid : id ∈ w.wired) :
    w'.Complete d types id where
  lt_size := h.lt_size
  wireable := h.wireable
  bound hentry ht k pin hpin := by
    obtain ⟨b, target, hb, htarget, hstands⟩ := h.bound hentry ht k pin hpin
    exact ⟨b, target, hb, by rw [hx.frame id hown (.inl hid) k, htarget], hstands⟩
  closed name hname := by
    obtain ⟨i, hi, hname⟩ := h.closed name hname
    exact ⟨i, hx.mono i hi, hname⟩

/-- The nodes that a wired node depends on are wired. -/
theorem Wiring.Sound.exists_wired (h : w.Sound d types) {x : String} {id : Nat}
    (hid : id ∈ w.wired) (hx : ReflTransGen d.Refers x (d.nameAt id)) :
    ∃ i ∈ w.wired, d.nameAt i = x := by
  induction hx using ReflTransGen.head_induction_on with
  | refl => exact ⟨id, hid, rfl⟩
  | head hxy _ ih =>
    obtain ⟨i, hi, rfl⟩ := ih
    exact (h.complete i hi).closed _ hxy

theorem nameAt_injective {i j : Nat} (hi : i < d.nodes.size) (hj : j < d.nodes.size)
    (h : d.nameAt i = d.nameAt j) : i = j := by
  obtain ⟨_, hi⟩ := Document.entry_of_lt hi
  obtain ⟨_, hj⟩ := Document.entry_of_lt hj
  exact Table.position_unique hi hj h

/-- A node of which the references are wired already, and which is not itself, lies on no cycle. -/
theorem Wiring.Sound.acyclic (h : w.Sound d types) (hlt : id < d.nodes.size) (hid : id ∉ w.wired)
    (hclosed : ∀ name, d.Refers name (d.nameAt id) → ∃ i ∈ w.wired, d.nameAt i = name) :
    ¬TransGen d.Refers (d.nameAt id) (d.nameAt id) := by
  intro hcycle
  obtain ⟨name, hpath, hrefers⟩ := TransGen.tail'_iff.1 hcycle
  obtain ⟨i, hi, rfl⟩ := hclosed name hrefers
  obtain ⟨j, hj, hname⟩ := h.exists_wired hi hpath
  exact hid (nameAt_injective (h.complete j hj).lt_size hlt hname ▸ hj)

section Nodes

variable {n : Node} {pin : Pin} {k : Nat} {b : WrittenBinding}

theorem get?_of_isNode {e : WrittenNode} (hnode : IsNode d types id n e) :
    d.nodes.get? (d.nameAt id) = some e := by
  rw [Document.nameAt_eq hnode.entry]
  exact Table.get?_eq_some_iff.2 (List.mem_of_getElem? hnode.entry)

theorem refers_of_isNode {e : WrittenNode} (hnode : IsNode d types id n e)
    (hb : e.inputs.get? pin.name = some b) {name : String} (hname : b.RefersTo name) :
    d.Refers name (d.nameAt id) :=
  ⟨e, get?_of_isNode hnode, (pin.name, b), Table.get?_eq_some_iff.1 hb, hname⟩

/-- The node at a position, as the walk finds it in the graph and in the document. -/
theorem isNode_of_values (hw : w.Sound d types) (hn : w.graph.node? id = some n)
    (hwritten : d.nodes.values[id]? = some written) : IsNode d types id n written := by
  obtain ⟨written', hnode⟩ := hw.skeleton.isNode hn
  rw [Table.values, List.getElem?_map, hnode.entry] at hwritten
  exact Option.some.inj hwritten ▸ hnode

/-- Binding an input of a node to what it is written to be bound to. -/
theorem bind_of_stands (hw : w.Sound d types) {e : WrittenNode} (hnode : IsNode d types id n e)
    (hpin : n.type.inputs[k]? = some pin) {target : Binding} (htarget : d.Stands types b target) :
    ∃ g, bind w.graph ⟨id, k⟩ target = .ok g ∧ g.outline = w.graph.outline ∧
      ∀ j, g.binding? j = if j = ⟨id, k⟩ then some target else w.graph.binding? j := by
  obtain ⟨n', hn', -, hnode'⟩ := hw.skeleton.node hnode.entry
  have hlt := (List.getElem?_eq_some_iff.1 hpin).1
  rw [Except.ok.inj (hnode.type.symm.trans hnode'.type)] at hlt
  exact hw.skeleton.bind_eq_ok htarget hn' hlt

/-- Binding an input of a node that is not wired keeps a wiring sound. -/
theorem Wiring.Sound.rebind {g : Graph} (hw : w.Sound d types) (hid : id ∉ w.wired)
    (ho : g.outline = w.graph.outline)
    (hg : ∀ j : InputRef, j.node ≠ id → g.binding? j = w.graph.binding? j)
    (S : String → Prop) :
    Wiring.Sound d types ⟨g, w.wired⟩ ∧ w.Extends d available S (· = id) ⟨g, w.wired⟩ := by
  have hextends : w.Extends d available S (· = id) ⟨g, w.wired⟩ :=
    ⟨fun _ => (fun h => h), fun _ => .inl, fun x hx _ k => hg ⟨x, k⟩ hx⟩
  refine ⟨⟨hw.skeleton.of_outline ho, fun x hx => ?_⟩, hextends⟩
  exact (hw.complete x hx).mono hextends (fun heq => hid (heq ▸ hx)) hx

end Nodes

section Inputs

variable {n : Node} {written : WrittenNode}

/-- The inputs of a node after they are all wired. -/
structure InputsComplete (d : Document) (types : String → Outcome NodeType) (w : Wiring)
    (id : Nat) (n : Node) (written : WrittenNode) : Prop where
  isNode : IsNode d types id n written
  known : ∀ key, written.inputs.contains key → key ∈ n.type.inputs.map Pin.name
  bound : ∀ (k : Nat) pin, n.type.inputs[k]? = some pin → ∃ b target,
    written.inputs.get? pin.name = some b ∧ w.graph.binding? ⟨id, k⟩ = some target ∧
      d.Stands types b target ∧ ∀ ref, target = .output ref → ref.node ∈ w.wired

/-- Every input that is written is bound at some pin. -/
theorem InputsComplete.entry (h : InputsComplete d types w id n written)
    {e : String × WrittenBinding} (he : e ∈ written.inputs.entries) :
    ∃ target, d.Stands types e.2 target ∧ ∀ ref, target = .output ref → ref.node ∈ w.wired := by
  obtain ⟨pin, hpin, hname⟩ := List.mem_map.1 (h.known e.1 (Table.contains_iff.2 ⟨e.2, he⟩))
  obtain ⟨k, hk⟩ := List.getElem?_of_mem hpin
  obtain ⟨b, target, hb, -, htarget, hwired⟩ := h.bound k pin hk
  rw [hname, Table.get?_eq_some_iff.2 he] at hb
  cases hb
  exact ⟨target, htarget, hwired⟩

theorem InputsComplete.closed (h : InputsComplete d types w id n written) (name : String)
    (hname : d.Refers name (d.nameAt id)) : ∃ i ∈ w.wired, d.nameAt i = name := by
  obtain ⟨written', hwritten', e, he, hrefers⟩ := hname
  cases hwritten'.symm.trans (get?_of_isNode h.isNode)
  obtain ⟨target, htarget, hwired⟩ := h.entry he
  obtain ⟨ref, other, rfl, hentry⟩ := htarget.output_of_refersTo hrefers
  exact ⟨ref.node, hwired ref rfl, Document.nameAt_eq hentry⟩

theorem InputsComplete.wireable (h : InputsComplete d types w id n written)
    (hw : w.Sound d types) (hlt : id < d.nodes.size) (hunwired : id ∉ w.wired) :
    d.Wireable types (d.nameAt id) where
  stands written' hwritten' e he := by
    cases hwritten'.symm.trans (get?_of_isNode h.isNode)
    obtain ⟨target, htarget, -⟩ := h.entry he
    exact ⟨target, htarget⟩
  keys written' t hwritten' ht key := by
    cases hwritten'.symm.trans (get?_of_isNode h.isNode)
    cases ht.symm.trans h.isNode.type
    refine ⟨h.known key, fun hkey => ?_⟩
    obtain ⟨pin, hpin, rfl⟩ := List.mem_map.1 hkey
    obtain ⟨k, hk⟩ := List.getElem?_of_mem hpin
    obtain ⟨b, -, hb, -⟩ := h.bound k pin hk
    exact Option.isSome_iff_exists.2 ⟨b, hb⟩
  acyclic := hw.acyclic hlt hunwired h.closed

/-- A node of which the inputs are wired joins the nodes that are wired. -/
theorem Wiring.Sound.cons (hw : w.Sound d types) (hlt : id < d.nodes.size)
    (hunwired : id ∉ w.wired) (h : InputsComplete d types w id n written) :
    Wiring.Sound d types ⟨w.graph, id :: w.wired⟩ := by
  have hextends : w.Extends d [id] (fun _ => True) (fun _ => False) ⟨w.graph, id :: w.wired⟩ :=
    ⟨fun x => List.mem_cons_of_mem id,
      fun x hx => (List.mem_cons.1 hx).symm.imp_right fun heq => ⟨by simp [heq], trivial⟩,
      fun _ _ _ _ => rfl⟩
  refine ⟨hw.skeleton, fun x hx => ?_⟩
  rcases List.mem_cons.1 hx with rfl | hx
  · refine ⟨hlt, h.wireable hw hlt hunwired, fun {e t} hentry ht k pin hpin => ?_,
      fun name hname => ?_⟩
    · cases hentry.symm.trans h.isNode.entry
      cases ht.symm.trans h.isNode.type
      obtain ⟨b, target, hb, htarget, hstands, -⟩ := h.bound k pin hpin
      exact ⟨b, target, hb, htarget, hstands⟩
    · obtain ⟨i, hi, hname⟩ := h.closed name hname
      exact ⟨i, List.mem_cons_of_mem _ hi, hname⟩
  · exact (hw.complete x hx).mono hextends (fun h => h) hx

end Inputs

end PassGraph

end MaterialGraph
