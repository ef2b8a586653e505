import MaterialGraph.Proofs.Graph.Wiring

/-!
The graphs that the operations build from the empty graph, in any order and with
any references. Main statement: such a graph is well wired.
-/

namespace MaterialGraph.Graph

/-- A call that fails leaves the graph as it was, so only calls that succeed build. -/
inductive Built : Graph → Prop
  | empty : Built .empty
  | instantiate {g : Graph} (name : String) (type : NodeType) (hg : Built g) :
      Built (g.instantiate name type)
  | connect {g g' : Graph} {o : OutputRef} {i : InputRef} (hg : Built g)
      (h : g.connect o i = .ok g') : Built g'
  | bindLeaf {g g' : Graph} {i : InputRef} {l : Leaf} (hg : Built g)
      (h : g.bindLeaf i l = .ok g') : Built g'
  | disconnect {g : Graph} (i : InputRef) (hg : Built g) : Built (g.disconnect i)
  | disconnectAll {g : Graph} (o : OutputRef) (hg : Built g) : Built (g.disconnectAll o)

structure WellWired (g : Graph) : Prop where
  inputs_length : ∀ {id n}, g.node? id = some n → n.inputs.length = n.type.inputs.length
  consumers_length : ∀ {id n}, g.node? id = some n → n.consumers.length = n.type.outputs.length
  wires : ∀ {i ref}, g.binding? i = some (.output ref) → g.HasOutput ref

variable {g g' : Graph}

theorem node?_instantiate (g : Graph) (name : String) (type : NodeType) (id : Nat) :
    (g.instantiate name type).node? id =
      if id = g.size then some (.ofType name type) else g.node? id := by
  simp only [node?, instantiate]
  by_cases h : id = g.size
  · rw [if_pos h, h, size, List.getElem?_append_right (Nat.le_refl _), Nat.sub_self]
    rfl
  · rw [if_neg h]
    rcases Nat.lt_or_gt_of_ne h with hlt | hgt
    · exact List.getElem?_append_left hlt
    · have hlen : g.nodes.length < id := hgt
      rw [List.getElem?_eq_none (by simp; omega), List.getElem?_eq_none (by omega)]

namespace WellWired

/-- Rewiring keeps a graph well wired if every wire comes from an output that
was there before. -/
theorem rewire (h : g.WellWired) (ho : g'.outline = g.outline)
    (hw : ∀ i ref, g'.binding? i = some (.output ref) → g.HasOutput ref) : g'.WellWired where
  inputs_length hn := by
    obtain ⟨n', hn', heq⟩ := node?_of_outline ho.symm hn
    simp only [Node.outline, Prod.mk.injEq] at heq
    rw [← heq.2.2.1, ← heq.2.1, h.inputs_length hn']
  consumers_length hn := by
    obtain ⟨n', hn', heq⟩ := node?_of_outline ho.symm hn
    simp only [Node.outline, Prod.mk.injEq] at heq
    rw [← heq.2.2.2, ← heq.2.1, h.consumers_length hn']
  wires hb := hasOutput_of_outline ho (hw _ _ hb)

theorem empty : Graph.empty.WellWired where
  inputs_length hn := by simp [node?, Graph.empty] at hn
  consumers_length hn := by simp [node?, Graph.empty] at hn
  wires hb := by simp [binding?, node?, Graph.empty] at hb

theorem instantiate (h : g.WellWired) (name : String) (type : NodeType) :
    (g.instantiate name type).WellWired where
  inputs_length {id n} hn := by
    rw [node?_instantiate] at hn
    split at hn
    · cases hn
      simp [Node.ofType]
    · exact h.inputs_length hn
  consumers_length {id n} hn := by
    rw [node?_instantiate] at hn
    split at hn
    · cases hn
      simp [Node.ofType]
    · exact h.consumers_length hn
  wires {i ref} hb := by
    rw [binding?, node?_instantiate] at hb
    split at hb
    · simp only [Node.ofType, Option.bind_some, List.getElem?_map, Option.map_eq_some_iff] at hb
      obtain ⟨-, -, hb⟩ := hb
      cases hb
    · obtain ⟨n, hn, hlt⟩ := h.wires hb
      exact ⟨n, by rw [node?_instantiate, if_neg (Nat.ne_of_lt (node?_lt hn)), hn], hlt⟩

theorem connect {o : OutputRef} {i : InputRef} (h : g.WellWired) (hg : g.connect o i = .ok g') :
    g'.WellWired := by
  refine h.rewire (outline_connect hg) fun j ref hb => ?_
  rw [binding?_connect hg] at hb
  split at hb
  · cases hb
    obtain ⟨n, hn, hlt⟩ := checkOutput_eq_ok (connect_eq_ok hg).1
    exact ⟨n, hn, by rwa [← h.consumers_length hn]⟩
  · exact h.wires hb

theorem bindLeaf {i : InputRef} {l : Leaf} (h : g.WellWired) (hg : g.bindLeaf i l = .ok g') :
    g'.WellWired := by
  refine h.rewire (outline_bindLeaf hg) fun j ref hb => ?_
  rw [binding?_bindLeaf hg] at hb
  split at hb
  · cases hb
  · exact h.wires hb

theorem disconnect (h : g.WellWired) (i : InputRef) : (g.disconnect i).WellWired := by
  refine h.rewire (outline_disconnect g i) fun j ref hb => ?_
  rw [binding?_disconnect] at hb
  split at hb
  · simp at hb
  · exact h.wires hb

theorem disconnectAll (h : g.WellWired) (o : OutputRef) : (g.disconnectAll o).WellWired := by
  refine h.rewire (outline_disconnectAll g o) fun j ref hb => ?_
  rw [binding?_disconnectAll] at hb
  split at hb
  · simp at hb
  · exact h.wires hb

end WellWired

theorem WellWired.hasOutput_of_mem (h : g.WellWired) {id : Nat} {n : Node} {ref : OutputRef}
    (hn : g.node? id = some n) (hmem : .output ref ∈ n.inputs) : g.HasOutput ref := by
  obtain ⟨k, hk⟩ := List.getElem?_of_mem hmem
  exact h.wires (i := ⟨id, k⟩) (by rw [Graph.binding?, hn]; exact hk)

theorem Built.wellWired (h : g.Built) : g.WellWired := by
  induction h with
  | empty => exact .empty
  | instantiate name type _ ih => exact ih.instantiate name type
  | connect _ hg ih => exact ih.connect hg
  | bindLeaf _ hg ih => exact ih.bindLeaf hg
  | disconnect i _ ih => exact ih.disconnect i
  | disconnectAll o _ ih => exact ih.disconnectAll o

end MaterialGraph.Graph
