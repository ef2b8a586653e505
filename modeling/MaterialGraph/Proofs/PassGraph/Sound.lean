import MaterialGraph.Proofs.PassGraph.Load
import MaterialGraph.Proofs.PassGraph.Usage

/-!
What a pass graph that was loaded can be relied on for: its wires come from
outputs that exist, and the nodes that its outputs depend on lie on no cycle and
have no input left unbound.
-/

namespace MaterialGraph.PassGraph

open Relation (TransGen)

structure Sound (p : PassGraph) : Prop extends p.Linked where
  acyclic : ∀ id, p.Live id → ¬TransGen p.graph.Feeds id id
  bound : ∀ id n, p.Live id → p.graph.node? id = some n → .unbound ∉ n.inputs

variable {d : Document} {types : String → Outcome NodeType} {g : Graph} {p : PassGraph}
  {wired : List Nat} {written : Document.WrittenPass} {ref : OutputRef} {a b id : Nat}

theorem hasOutput_of_stands {w : Document.WrittenBinding} (hg : d.Skeleton types g)
    (h : d.Stands types w (.output ref)) : g.HasOutput ref := by
  cases h with
  | output hw hentry ht hk =>
    obtain ⟨n, hn, -, hnode⟩ := hg.node hentry
    refine ⟨n, hn, ?_⟩
    rw [← Except.ok.inj (ht.symm.trans hnode.type)]
    exact Document.Skeleton.namedOutput?_lt hk

/-- A graph that was wired from one without wires, from some outputs on. -/
structure Wired (d : Document) (types : String → Outcome NodeType) (wired : List Nat)
    (g : Graph) : Prop where
  sound : Wiring.Sound d types ⟨g, wired⟩
  unwired : ∀ id ∉ wired, ∀ k target, g.binding? ⟨id, k⟩ = some target → target = .unbound

namespace Wired

variable (h : Wired d types wired g)
include h

/-- What an input is bound to is written for it, if its node is wired. -/
theorem stands (hid : id ∈ wired) {k : Nat} {target : Binding}
    (hk : g.binding? ⟨id, k⟩ = some target) :
    ∃ n e w pin, Document.Skeleton.IsNode d types id n e ∧ e.inputs.get? pin = some w ∧
      d.Stands types w target := by
  obtain ⟨n, hn, hinput⟩ := Option.bind_eq_some_iff.1 hk
  obtain ⟨e, hnode⟩ := h.sound.skeleton.isNode hn
  have hlt : k < n.type.inputs.length :=
    hnode.inputs_length ▸ (List.getElem?_eq_some_iff.1 hinput).1
  obtain ⟨w, target', hw, htarget, hstands⟩ := (h.sound.complete id hid).bound hnode.entry
    hnode.type k _ (List.getElem?_eq_getElem hlt)
  cases hk.symm.trans htarget
  exact ⟨n, e, w, _, hnode, hw, hstands⟩

theorem mem_of_wire {k : Nat} (hk : g.binding? ⟨id, k⟩ = some (.output ref)) : id ∈ wired := by
  by_contra hid
  cases h.unwired id hid k _ hk

theorem wellWired : g.WellWired where
  inputs_length hn := by
    obtain ⟨e, hnode⟩ := h.sound.skeleton.isNode hn
    exact hnode.inputs_length
  consumers_length hn := by
    obtain ⟨e, hnode⟩ := h.sound.skeleton.isNode hn
    exact hnode.consumers_length
  wires {i ref} hi := by
    obtain ⟨n, e, w, pin, -, -, hstands⟩ := h.stands (h.mem_of_wire hi) hi
    exact hasOutput_of_stands h.sound.skeleton hstands

/-- The wires are references of the document, to nodes that are wired. -/
theorem of_feeds (hab : g.Feeds a b) : a ∈ wired ∧ b ∈ wired ∧ d.FeedsAt a b := by
  have hlt := h.wellWired.lt_of_feeds hab
  obtain ⟨n, hn, ref, href, rfl⟩ := hab
  obtain ⟨k, hk⟩ := List.getElem?_of_mem href
  have hbinding : g.binding? ⟨b, k⟩ = some (.output ref) := by
    rw [Graph.binding?, hn]
    exact hk
  have hb := h.mem_of_wire hbinding
  obtain ⟨n', e, w, pin, hnode, hw, hstands⟩ := h.stands hb hbinding
  cases hstands with
  | @output name _ node _ _ _ hclassify hentry _ _ =>
    have hrefers : d.Refers name (d.nameAt b) :=
      ⟨e, get?_of_isNode hnode, (pin, w), Table.get?_eq_some_iff.1 hw, _, hclassify⟩
    rw [← Document.nameAt_eq hentry] at hrefers
    obtain ⟨i, hi, hname⟩ := (h.sound.complete b hb).closed _ hrefers
    have hsize : node < d.nodes.size := h.sound.skeleton.size_eq ▸ hlt
    have heq := nameAt_injective (h.sound.complete i hi).lt_size hsize hname
    exact ⟨heq ▸ hi, hb, hrefers⟩

/-- Nodes that are wired lie on no cycle. -/
theorem acyclic (hid : id ∈ wired) : ¬TransGen g.Feeds id id := by
  intro hcycle
  have hrefers : TransGen d.Refers (d.nameAt id) (d.nameAt id) :=
    hcycle.lift d.nameAt fun _ _ hab => (h.of_feeds hab).2.2
  exact (h.sound.complete id hid).wireable.acyclic hrefers

theorem bound (hid : id ∈ wired) {n : Node} (hn : g.node? id = some n) : .unbound ∉ n.inputs := by
  intro hmem
  obtain ⟨k, hk⟩ := List.getElem?_of_mem hmem
  have hbinding : g.binding? ⟨id, k⟩ = some .unbound := by
    rw [Graph.binding?, hn]
    exact hk
  obtain ⟨n', e, w, pin, -, -, hstands⟩ := h.stands hid hbinding
  cases hstands

end Wired

/-- A pass graph with its outputs wired as they are written. -/
theorem Wired.sound_of_takes (h : Wired d types wired p.graph)
    (htakes : ∀ o, TakesAsWritten d types written ⟨p.graph, wired⟩ o (p.output o)) : p.Sound := by
  have hlive : ∀ id, p.Live id → id ∈ wired := fun id hid =>
    hid.mem_of_closed (S := (· ∈ wired)) (fun o ref ho => (htakes o).wired ref ho)
      fun _ _ hab _ => (h.of_feeds hab).1
  refine ⟨⟨h.wellWired, fun o ref ho => ?_⟩, fun id hid => h.acyclic (hlive id hid),
    fun id n hid hn => h.bound (hlive id hid) hn⟩
  cases hw : written.output? o with
  | none => cases ((htakes o).absent hw).symm.trans ho
  | some w => exact hasOutput_of_stands h.sound.skeleton (ho ▸ (htakes o).stands w hw)

/-- A pass graph that was loaded is sound. -/
theorem sound_of_loaded {resolver : Resolver} {pass : Pass} {r : Registry}
    (h : loaded resolver d pass r = .ok (some p)) : p.pass = pass ∧ p.Sound := by
  cases hwritten : d.written? pass with
  | none => cases (loaded_of_absent hwritten).symm.trans h
  | some written =>
    rcases run_instantiate resolver d.name d.nodes.entries .empty r with
      ⟨nodes, r', hrun, hnodes⟩ | ⟨f, r', hrun, -⟩
    · have hresult := wireOutputs_wired (skeleton_of_instances hnodes) pass written
      rw [loaded_of_instances hwritten (g := ⟨nodes⟩) hrun] at h
      cases hwire : wireOutputs d pass written ⟨nodes⟩ with
      | error f =>
        rw [hwire] at h
        cases h
      | ok q =>
        rw [hwire] at h hresult
        cases h
        obtain ⟨hpass, wired, hw, hextends, htakes⟩ := hresult
        have hunwired : ∀ id ∉ wired, ∀ k target,
            p.graph.binding? ⟨id, k⟩ = some target → target = .unbound := by
          intro id hid k target hk
          rw [hextends.frame id (fun hfalse => hfalse) (.inr hid) k] at hk
          exact unbound_of_instances hnodes _ _ hk
        exact ⟨hpass, Wired.sound_of_takes ⟨hw, hunwired⟩ htakes⟩
    · cases (loaded_of_error hwritten hrun).symm.trans h

end MaterialGraph.PassGraph
