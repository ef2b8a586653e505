import MaterialGraph.Proofs.Document.References
import MaterialGraph.Proofs.Graph.Alike

/-!
Documents that write a pass alike: what one of them writes for an output, and for a node
that the output depends on, the other one writes as well, up to the names of the nodes.
Main statement: the pass can be loaded from both documents or from neither.
-/

theorem Option.Rel.exists_of_some {α β : Type*} {r : α → β → Prop} {a : α} {b : Option β}
    (h : Option.Rel r (Option.some a) b) : ∃ c, b = Option.some c ∧ r a c := by
  cases h with
  | some hab => exact ⟨_, rfl, hab⟩

theorem Option.Rel.eq_none {α β : Type*} {r : α → β → Prop} {b : Option β}
    (h : Option.Rel r Option.none b) : b = Option.none := by
  cases h
  rfl

theorem Option.Rel.swap {α β : Type*} {r : α → β → Prop} {s : β → α → Prop} {a : Option α}
    {b : Option β} (h : Option.Rel r a b) (hrs : ∀ a b, r a b → s b a) : Option.Rel s b a := by
  cases h with
  | some hab => exact .some (hrs _ _ hab)
  | none => exact .none

theorem Option.Rel.isSome_eq {α β : Type*} {r : α → β → Prop} {a : Option α} {b : Option β}
    (h : Option.Rel r a b) : a.isSome = b.isSome := by
  cases h with
  | some _ => rfl
  | none => rfl

namespace MaterialGraph

namespace Document

open Relation (TransGen ReflTransGen)

/-- Written bindings that give the same leaf, the same output of corresponding nodes, or
nothing. -/
inductive WrittenBinding.Alike (R : String → String → Prop) (b b' : WrittenBinding) : Prop
  | leaf {l : Leaf} (h : b.classify = .ok (.leaf l)) (h' : b'.classify = .ok (.leaf l))
  | node {x x' output : String} (h : b.classify = .ok (.node x output))
      (h' : b'.classify = .ok (.node x' output)) (hx : R x x')
  | fault {e e' : BindingFault} (h : b.classify = .error e) (h' : b'.classify = .error e')

structure WrittenNode.Alike (R : String → String → Prop) (n n' : WrittenNode) : Prop where
  type : n.type = n'.type
  inputs : ∀ key, Option.Rel (WrittenBinding.Alike R) (n.inputs.get? key) (n'.inputs.get? key)

/-- Whether the type of every node is known. -/
def Known (types : String → Outcome NodeType) (d : Document) : Prop :=
  ∀ e ∈ d.nodes.entries, ∃ t, types e.2.type = .ok t

/-- Documents that write a pass alike, up to names of nodes that correspond where they
are reached. -/
structure Alike (types : String → Outcome NodeType) (R : String → String → Prop)
    (d d' : Document) (w w' : WrittenPass) : Prop where
  unique : ∀ x x' y y', R x x' → R y y' → d.nodes.contains x → d.nodes.contains y →
    (x = y ↔ x' = y')
  reached : ∀ x x', R x x' → d.Reaches w x ∧ d'.Reaches w' x'
  known : d.Known types ↔ d'.Known types
  outputs : ∀ o, Option.Rel (WrittenBinding.Alike R) (w.output? o) (w'.output? o)
  nodes : ∀ x x', R x x' → Option.Rel (WrittenNode.Alike R) (d.nodes.get? x) (d'.nodes.get? x')

/-- Whether nodes that correspond stand at two positions. -/
def Corresponding (R : String → String → Prop) (d d' : Document) (i i' : Nat) : Prop :=
  ∃ e e', d.nodes.entries[i]? = some e ∧ d'.nodes.entries[i']? = some e' ∧ R e.1 e'.1

variable {types : String → Outcome NodeType} {R : String → String → Prop} {d d' : Document}
  {w w' : WrittenPass} {b b' : WrittenBinding} {n n' : WrittenNode} {c : Binding}
  {x y y' : String} {i i' j j' : Nat}

/-- A node that another one feeds is there. -/
theorem contains_of_transGen (h : TransGen d.Refers x y) : d.nodes.contains y := by
  obtain ⟨z, -, n, hn, -⟩ := TransGen.tail'_iff.1 h
  rw [Table.contains, hn]
  rfl

theorem WrittenBinding.Alike.symm (h : b.Alike R b') : b'.Alike (flip R) b := by
  cases h with
  | leaf h h' => exact .leaf h' h
  | node h h' hx => exact .node h' h hx
  | fault h h' => exact .fault h' h

theorem WrittenBinding.Alike.exists_refersTo (h : b.Alike R b') (hx : b.RefersTo x) :
    ∃ x', R x x' ∧ b'.RefersTo x' := by
  obtain ⟨output, hb⟩ := hx
  cases h with
  | leaf hl hl' => cases hl.symm.trans hb
  | fault hf hf' => cases hf.symm.trans hb
  | @node z x' output' hz hx' hR =>
    cases hz.symm.trans hb
    exact ⟨x', hR, output, hx'⟩

theorem WrittenNode.Alike.symm (h : n.Alike R n') : n'.Alike (flip R) n where
  type := h.type.symm
  inputs key := (h.inputs key).swap fun _ _ => WrittenBinding.Alike.symm

theorem WrittenNode.Alike.exists_input (h : n.Alike R n') {e : String × WrittenBinding}
    (he : e ∈ n.inputs.entries) : ∃ b', (e.1, b') ∈ n'.inputs.entries ∧ e.2.Alike R b' := by
  have hinput := h.inputs e.1
  rw [Table.get?_eq_some_iff.2 he] at hinput
  obtain ⟨b', hb', halike⟩ := hinput.exists_of_some
  exact ⟨b', Table.get?_eq_some_iff.1 hb', halike⟩

namespace Alike

theorem contains_iff (h : Alike types R d d' w w') {x x' : String} (hx : R x x') :
    d.nodes.contains x ↔ d'.nodes.contains x' :=
  Bool.eq_iff_iff.1 (h.nodes x x' hx).isSome_eq

theorem symm (h : Alike types R d d' w w') : Alike types (flip R) d' d w' w where
  unique x x' y y' hx hy hmem hmem' :=
    (h.unique x' x y' y hx hy ((h.contains_iff hx).2 hmem) ((h.contains_iff hy).2 hmem')).symm
  reached x x' hx := (h.reached x' x hx).symm
  known := h.known.symm
  outputs o := (h.outputs o).swap fun _ _ => WrittenBinding.Alike.symm
  nodes x x' hx := (h.nodes x' x hx).swap fun _ _ => WrittenNode.Alike.symm

variable (h : Alike types R d d' w w')
include h

theorem exists_node {x' : String} (hx : R x x') (hn : d.nodes.get? x = some n) :
    ∃ n', d'.nodes.get? x' = some n' ∧ n.Alike R n' := by
  have hnodes := h.nodes x x' hx
  rw [hn] at hnodes
  exact hnodes.exists_of_some

theorem exists_output {o : Output} (ho : w.output? o = some b) :
    ∃ b', w'.output? o = some b' ∧ b.Alike R b' := by
  have houtput := h.outputs o
  rw [ho] at houtput
  exact houtput.exists_of_some

/-- What refers to a node refers to the corresponding node in the other document. -/
theorem refers (hxy : d.Refers x y) (hy : R y y') : ∃ x', R x x' ∧ d'.Refers x' y' := by
  obtain ⟨n, hn, e, he, href⟩ := hxy
  obtain ⟨n', hn', halike⟩ := h.exists_node hy hn
  obtain ⟨b', hb', hbinding⟩ := halike.exists_input he
  obtain ⟨x', hx, href'⟩ := hbinding.exists_refersTo href
  exact ⟨x', hx, n', hn', (e.1, b'), hb', href'⟩

/-- Every node that is reached has its counterpart. -/
theorem exists_of_reaches (hx : d.Reaches w x) : ∃ x', R x x' := by
  obtain ⟨o, b, a, ho, href, hpath⟩ := hx
  obtain ⟨b', -, hbinding⟩ := h.exists_output ho
  obtain ⟨a', ha, -⟩ := hbinding.exists_refersTo href
  induction hpath using ReflTransGen.head_induction_on with
  | refl => exact ⟨a', ha⟩
  | head hxy _ ih =>
    obtain ⟨y', hy⟩ := ih
    obtain ⟨x', hx, -⟩ := h.refers hxy hy
    exact ⟨x', hx⟩

theorem transGen (hxy : TransGen d.Refers x y) (hy : R y y') :
    ∃ x', R x x' ∧ TransGen d'.Refers x' y' := by
  induction hxy using TransGen.head_induction_on with
  | single hxy =>
    obtain ⟨x', hx, hrefers⟩ := h.refers hxy hy
    exact ⟨x', hx, .single hrefers⟩
  | head hxz _ ih =>
    obtain ⟨z', hz, hpath⟩ := ih
    obtain ⟨x', hx, hrefers⟩ := h.refers hxz hz
    exact ⟨x', hx, .head hrefers hpath⟩

/-- The nodes at corresponding positions are written alike. -/
theorem nodes_of_corresponding (hi : Corresponding R d d' i i') : ∃ x x' n n',
    d.nodes.entries[i]? = some (x, n) ∧ d'.nodes.entries[i']? = some (x', n') ∧ R x x' ∧
      n.Alike R n' := by
  obtain ⟨⟨x, n⟩, ⟨x', n'⟩, hentry, hentry', hx⟩ := hi
  obtain ⟨m, hm, halike⟩ :=
    h.exists_node hx (Table.get?_eq_some_iff.2 (List.mem_of_getElem? hentry))
  cases (Table.get?_eq_some_iff.2 (List.mem_of_getElem? hentry')).symm.trans hm
  exact ⟨x, x', n, n', hentry, hentry', hx, halike⟩

theorem corresponding_unique (hi : Corresponding R d d' i i') (hj : Corresponding R d d' j j') :
    i = j ↔ i' = j' := by
  obtain ⟨e, e', he, he', hR⟩ := hi
  obtain ⟨k, k', hk, hk', hR'⟩ := hj
  have hnames := h.unique _ _ _ _ hR hR'
    (Table.contains_iff.2 ⟨_, List.mem_of_getElem? he⟩)
    (Table.contains_iff.2 ⟨_, List.mem_of_getElem? hk⟩)
  constructor
  · rintro rfl
    cases he.symm.trans hk
    exact Table.position_unique he' hk' (hnames.1 rfl)
  · rintro rfl
    cases he'.symm.trans hk'
    exact Table.position_unique he hk (hnames.2 rfl)

/-- Bindings written alike stand for bindings that are alike. -/
theorem exists_stands (hb : b.Alike R b') (hc : d.Stands types b c) :
    ∃ c', d'.Stands types b' c' ∧ c.Alike (Corresponding R d d') c' := by
  cases hb with
  | leaf hl hl' =>
    cases hc with
    | leaf hc =>
      cases hl.symm.trans hc
      exact ⟨_, .leaf hl', .leaf _⟩
    | output hc => cases hl.symm.trans hc
  | fault hf hf' =>
    cases hc with
    | leaf hc => cases hf.symm.trans hc
    | output hc => cases hf.symm.trans hc
  | @node z x' _ hz hx' hR =>
    cases hc with
    | leaf hc => cases hz.symm.trans hc
    | @output x output i k n t hc hn ht hk =>
      cases hz.symm.trans hc
      obtain ⟨n', hn', halike⟩ :=
        h.exists_node hR (Table.get?_eq_some_iff.2 (List.mem_of_getElem? hn))
      obtain ⟨i', hi'⟩ := List.getElem?_of_mem (Table.get?_eq_some_iff.1 hn')
      have hi : Corresponding R d d' i i' := ⟨_, _, hn, hi', hR⟩
      exact ⟨.output ⟨i', k⟩, .output hx' hi' (halike.type ▸ ht) hk, .output hi k⟩

/-- Written alike, bindings stand for nothing but bindings that are alike. -/
theorem stands (hb : b.Alike R b') {c' : Binding} (hc : d.Stands types b c)
    (hc' : d'.Stands types b' c') : c.Alike (Corresponding R d d') c' := by
  obtain ⟨c'', hc'', halike⟩ := h.exists_stands hb hc
  rwa [hc'.unique hc'']

theorem samplerAt (hi : Corresponding R d d' i i') {k : Nat}
    (hk : d.SamplerAt types ⟨i, k⟩) : d'.SamplerAt types ⟨i', k⟩ := by
  obtain ⟨x, x', n, n', hn, hn', -, halike⟩ := h.nodes_of_corresponding hi
  obtain ⟨name, m, t, pin, hm, ht, hpin, hsampler⟩ := hk
  cases hn.symm.trans hm
  exact ⟨x', n', t, pin, hn', halike.type ▸ ht, hpin, hsampler⟩

/-- A node that corresponds to one whose inputs can be wired is such a node as well. -/
theorem wireable {x' : String} (hx : R x x') (hw : d.Wireable types x) :
    d'.Wireable types x' := by
  refine ⟨fun n' hn' e' he' => ?_, fun n' t hn' ht key => ?_, fun hcycle => ?_⟩
  · obtain ⟨n, hn, halike⟩ := h.symm.exists_node hx hn'
    obtain ⟨b, hb, hbinding⟩ := halike.exists_input he'
    obtain ⟨c, hc⟩ := hw.stands n hn (e'.1, b) hb
    obtain ⟨c', hc', -⟩ := h.exists_stands hbinding.symm hc
    exact ⟨c', hc'⟩
  · obtain ⟨n, hn, halike⟩ := h.symm.exists_node hx hn'
    have hkeys := hw.keys n t hn (halike.type ▸ ht) key
    have hcontains : n'.inputs.contains key = n.inputs.contains key :=
      (halike.inputs key).isSome_eq
    rwa [← hcontains] at hkeys
  · -- A cycle through the node leads back to a node that corresponds to the same one.
    obtain ⟨z, hz, hpath⟩ := h.symm.transGen hcycle hx
    have hmem' : d'.nodes.contains x' := contains_of_transGen hcycle
    have heq : z = x := (h.unique z x' x x' hz hx ((h.contains_iff hz).2 hmem')
      ((h.contains_iff hx).2 hmem')).2 rfl
    exact hw.acyclic (heq ▸ hpath)

/-- A pass that can be loaded from one document can be loaded from the other. -/
theorem loadable (hl : d.Loadable types w) : d'.Loadable types w' := by
  refine ⟨h.known.1 hl.known, fun o b' ho => ?_, fun o b' ref' ho hstands hsampler => ?_,
    fun x' hx' => ?_⟩
  · obtain ⟨b, hb, hbinding⟩ := h.symm.exists_output ho
    obtain ⟨c, hc⟩ := hl.outputs o b hb
    obtain ⟨c', hc', -⟩ := h.exists_stands hbinding.symm hc
    exact ⟨c', hc'⟩
  · obtain ⟨b, hb, hbinding⟩ := h.symm.exists_output ho
    obtain ⟨c, hc, halike⟩ := h.symm.exists_stands hbinding hstands
    cases halike with
    | output hi k => exact hl.samplers o b _ hb hc (h.symm.samplerAt hi hsampler)
  · obtain ⟨x, hx⟩ := h.symm.exists_of_reaches hx'
    exact h.wireable hx (hl.wireable x (h.reached x x' hx).1)

end Alike

/-- Documents that write the same passes, each of them alike. -/
structure Similar (types : String → Outcome NodeType) (d d' : Document) : Prop where
  name : d.name = d'.name
  skinMode : d.skinMode = d'.skinMode
  precision : d.precision = d'.precision
  samplerPrecision : d.samplerPrecision = d'.samplerPrecision
  passes : ∀ pass, Option.Rel (fun w w' => ∃ R, Alike types R d d' w w') (d.written? pass)
    (d'.written? pass)

theorem Similar.symm (h : Similar types d d') : Similar types d' d where
  name := h.name.symm
  skinMode := h.skinMode.symm
  precision := h.precision.symm
  samplerPrecision := h.samplerPrecision.symm
  passes pass := (h.passes pass).swap fun _ _ ⟨_, halike⟩ => ⟨_, halike.symm⟩

end Document

end MaterialGraph
