import MaterialGraph.Proofs.Body.Emission

/-!
The walk that emits a node after all that feeds it. Where the part of the graph
that the outputs of a pass depend on is bound and free of cycles, the walk emits
every node it reaches and keeps the emission sound.
-/

namespace MaterialGraph

open Relation (TransGen)

/-- A pass whose live part has no cycle, is bound throughout, reads leaves that
have texts, and uses no register for two pins of a node. -/
structure PassGraph.Emittable (p : PassGraph) (access : Leaf → Outcome String) : Prop where
  built : p.graph.Built
  outputs : ∀ o ref, p.output o = .output ref → p.graph.HasOutput ref
  acyclic : ∀ id, p.Live id → ¬TransGen p.graph.Feeds id id
  bound : ∀ id n, p.Live id → p.graph.node? id = some n → .unbound ∉ n.inputs
  texts : ∀ l, p.LiveLeaf l → ∃ t, access l = .ok t
  registers : ∀ id n, p.Live id → p.graph.node? id = some n →
    ((n.type.inputs ++ n.type.outputs).map Pin.register).Nodup

namespace Body

variable {V : Type*} {p : PassGraph} {access : Leaf → Outcome String} {I : Interpretation V}

/-- Emitting a node that the walk reaches extends a sound emission by it. -/
def EmitsNode (p : PassGraph) (access : Leaf → Outcome String) (I : Interpretation V)
    (available : List Nat) (id : Nat) (e : Emission) : Prop :=
  ∀ (s : State V) n, p.graph.node? id = some n → p.Live id →
    OnWay p.graph.Feeds p.graph.size available id → e.Sound p.graph access I s →
    ∃ e' s', emitNode p.graph access available id e = .ok e' ∧ e'.Sound p.graph access I s' ∧
      s'.written = s.written ∧ e.firsts <+: e'.firsts ∧ (e'.firsts.lookup id).isSome

/-- Emitting the producers of some inputs of a node makes the inputs ready. -/
def EmitsProducers (p : PassGraph) (access : Leaf → Outcome String) (I : Interpretation V)
    (available : List Nat) (n : Node) (inputs : List (Binding × Pin)) (e : Emission) : Prop :=
  ∀ (s : State V) id, p.graph.node? id = some n → p.Live id →
    (∀ a, p.graph.Feeds a id → OnWay p.graph.Feeds p.graph.size available a) →
    (∀ b ∈ inputs, b.1 ∈ n.inputs) → e.Sound p.graph access I s →
    ∃ e' s', emitProducers p.graph access available n inputs e = .ok e' ∧
      e'.Sound p.graph access I s' ∧ s'.written = s.written ∧ e.firsts <+: e'.firsts ∧
      ∀ b ∈ inputs, e'.Ready p.graph access b.1

theorem emitsNode_of_emitted {available : List Nat} {id : Nat} {e : Emission}
    (h : (e.firsts.lookup id).isSome) : EmitsNode p access I available id e := by
  intro s n hn _ _ hs
  refine ⟨e, s, ?_, hs, rfl, List.prefix_refl _, h⟩
  rw [emitNode, hn]
  simp only [h, if_true]

private theorem feeds_of_mem {g : Graph} {id : Nat} {n : Node} {ref : OutputRef}
    (hn : g.node? id = some n) (h : .output ref ∈ n.inputs) : g.Feeds ref.node id :=
  ⟨n, hn, ref, h, rfl⟩

/-- A node that the walk reaches is available, since it lies on no cycle. -/
theorem emitsNode_of_producers (h : p.Emittable access) {available : List Nat} {id : Nat}
    {e : Emission} {n : Node} (hn : p.graph.node? id = some n)
    (hproducers : EmitsProducers p access I (available.erase id) n (n.inputs.zip n.type.inputs) e) :
    EmitsNode p access I available id e := by
  intro s n' hn' hlive hway hs
  obtain rfl : n = n' := Option.some.inj (hn.symm.trans hn')
  have hlength := h.built.wellWired.inputs_length hn
  have havailable : id ∈ available :=
    hway.mem_available (Graph.node?_lt hn) (h.acyclic id hlive)
  obtain ⟨e₁, s₁, hemit₁, hs₁, hwritten₁, hfirsts₁, hready₁⟩ := hproducers s id hn hlive
    (fun a ha => hway.step ha) (fun b hb => (List.of_mem_zip hb).1) hs
  have hready : ∀ b ∈ n.inputs, e₁.Ready p.graph access b := by
    intro b hb
    rw [← List.map_fst_zip (Nat.le_of_eq hlength)] at hb
    obtain ⟨c, hc, rfl⟩ := List.mem_map.1 hb
    exact hready₁ c hc
  obtain ⟨e₂, s₂, hemit₂, hs₂, hwritten₂, hfirsts₂⟩ :=
    hs₁.emitCall hn ⟨hlength, h.registers id n hlive hn⟩ hready
  by_cases hdone : (e.firsts.lookup id).isSome
  · exact emitsNode_of_emitted hdone s n hn hlive hway hs
  · refine ⟨e₂, s₂, ?_, hs₂, hwritten₂.trans hwritten₁, ?_, ?_⟩
    · rw [emitNode, hn]
      simp only [hdone, havailable, hemit₁, dite_true]
      exact hemit₂
    · exact hfirsts₁.trans (hfirsts₂ ▸ List.prefix_append ..)
    · rw [hfirsts₂, List.lookup_append, Option.isSome_or, List.lookup_cons, BEq.rfl]
      exact Bool.or_true _

theorem emitsProducers_cons (h : p.Emittable access) {available : List Nat} {n : Node}
    {e : Emission} {ref : OutputRef} {pin : Pin} {rest : List (Binding × Pin)}
    (hnode : EmitsNode p access I available ref.node e)
    (hrest : ∀ e', EmitsProducers p access I available n rest e') :
    EmitsProducers p access I available n ((.output ref, pin) :: rest) e := by
  intro s id hn hlive hway hinputs hs
  have hmem : .output ref ∈ n.inputs := hinputs _ List.mem_cons_self
  have hfeeds := feeds_of_mem hn hmem
  obtain ⟨n', hn', hlt⟩ := h.built.wellWired.hasOutput_of_mem hn hmem
  obtain ⟨e₁, s₁, hemit₁, hs₁, hwritten₁, hfirsts₁, hid₁⟩ :=
    hnode s n' hn' (hlive.feeder hfeeds) (hway _ hfeeds) hs
  obtain ⟨e₂, s₂, hemit₂, hs₂, hwritten₂, hfirsts₂, hready₂⟩ := hrest e₁ s₁ id hn hlive hway
    (fun b hb => hinputs b (List.mem_cons_of_mem _ hb)) hs₁
  refine ⟨e₂, s₂, ?_, hs₂, hwritten₂.trans hwritten₁, hfirsts₁.trans hfirsts₂, fun b hb => ?_⟩
  · rw [emitProducers, hemit₁]
    exact hemit₂
  · rcases List.mem_cons.1 hb with rfl | hb
    · exact Emission.Ready.mono hfirsts₂ (b := .output ref)
        (Emission.temp?_isSome hid₁ ⟨n', hn', hlt⟩)
    · exact hready₂ b hb

theorem emitsProducers_nil {available : List Nat} {n : Node} {e : Emission} :
    EmitsProducers p access I available n [] e := by
  intro s id _ _ _ _ hs
  refine ⟨e, s, ?_, hs, rfl, List.prefix_refl _, fun b hb => absurd hb List.not_mem_nil⟩
  rw [emitProducers]

theorem emitsProducers_leaf (h : p.Emittable access) {available : List Nat} {n : Node}
    {e : Emission} {l : Leaf} {pin : Pin} {rest : List (Binding × Pin)}
    (hrest : EmitsProducers p access I available n rest e) :
    EmitsProducers p access I available n ((.leaf l, pin) :: rest) e := by
  intro s id hn hlive hway hinputs hs
  obtain ⟨e', s', hemit, hs', hwritten, hfirsts, hready⟩ := hrest s id hn hlive hway
    (fun b hb => hinputs b (List.mem_cons_of_mem _ hb)) hs
  refine ⟨e', s', by rw [emitProducers, hemit], hs', hwritten, hfirsts, fun b hb => ?_⟩
  rcases List.mem_cons.1 hb with rfl | hb
  · exact h.texts l (.inr ⟨id, n, hlive, hn, hinputs _ List.mem_cons_self⟩)
  · exact hready b hb

/-- The walk emits every node it reaches, by induction along its recursion. -/
theorem emitsNode (h : p.Emittable access) (available : List Nat) (id : Nat) (e : Emission) :
    EmitsNode p access I available id e := by
  refine (emitNode.mutual_induct p.graph (EmitsNode p access I) (EmitsProducers p access I)
    ?absent ?emitted ?fresh ?cycle ?nil ?leaf ?unbound ?output).1 available id e
  case absent =>
    intro available id e hn s n hn'
    cases hn.symm.trans hn'
  case emitted => exact fun available id e n _ hid => emitsNode_of_emitted hid
  case fresh =>
    exact fun available id e n hn _ _ _ hproducers => emitsNode_of_producers h hn hproducers
  case cycle =>
    intro available id e n hn _ hnot s n' _ hlive hway
    exact absurd (hway.mem_available (Graph.node?_lt hn) (h.acyclic id hlive)) hnot
  case nil => exact fun available n e => emitsProducers_nil
  case leaf => exact fun available n e l pin rest hrest => emitsProducers_leaf h hrest
  case unbound =>
    intro available n e pin rest s id hn hlive _ hinputs
    exact absurd (hinputs _ List.mem_cons_self) (h.bound id n hlive hn)
  case output =>
    exact fun available n e ref pin rest hnode hrest => emitsProducers_cons h hnode hrest

end Body

end MaterialGraph
