import MaterialGraph.Proofs.Document.Alike
import MaterialGraph.Proofs.Failure
import MaterialGraph.Proofs.PassGraph.Skeleton
import MaterialGraph.Proofs.PassGraph.Usage

/-!
Pass graphs that are alike. Main statements: graphs that are bound as two documents write
one pass alike are alike, and alike graphs have one usage.
-/

namespace MaterialGraph

namespace PassGraph

/-- Pass graphs whose outputs take the same values, up to corresponding nodes. -/
structure Alike (I : Nat → Nat → Prop) (p p' : PassGraph) : Prop where
  graph : p.graph.Alike I p'.graph
  pass : p.pass = p'.pass
  outputs : ∀ o, (p.output o).Alike I (p'.output o)

namespace Alike

variable {I : Nat → Nat → Prop} {p p' : PassGraph} {id : Nat}

theorem symm (h : p.Alike I p') : p'.Alike (flip I) p where
  graph := h.graph.symm
  pass := h.pass.symm
  outputs o := (h.outputs o).symm

variable (h : p.Alike I p')
include h

theorem starts : List.Forall₂ I p.starts p'.starts := by
  have hsame : List.Forall₂ Eq Output.all Output.all := List.forall₂_refl _
  refine List.rel_filterMap (fun o o' ho => ?_) hsame
  cases ho
  have houtput := h.outputs o
  generalize p.output o = b, p'.output o = b' at houtput ⊢
  cases houtput with
  | unbound => exact .none
  | leaf l => exact .none
  | output hi k => exact .some hi

/-- Nodes that correspond are met in the same order. -/
theorem visits : List.Forall₂ I p.visits p'.visits :=
  h.graph.walkFrom h.graph.matched_ids h.starts

theorem inputLeaves_eq : p.inputLeaves = p'.inputLeaves :=
  h.graph.leaves h.visits

theorem outputLeaves_eq : p.outputLeaves = p'.outputLeaves := by
  refine List.filterMap_congr fun o _ => ?_
  have houtput := h.outputs o
  generalize p.output o = b, p'.output o = b' at houtput ⊢
  cases houtput with
  | unbound => rfl
  | leaf l => rfl
  | output hi k => rfl

/-- Alike graphs use the same leaves, and sample textures under the same types. -/
theorem usage_eq : p.usage = p'.usage := by
  rw [usage, usage, h.inputLeaves_eq, h.outputLeaves_eq]

theorem unbound_iff (o : Output) : p.output o = .unbound ↔ p'.output o = .unbound := by
  have houtput := h.outputs o
  generalize p.output o = b, p'.output o = b' at houtput ⊢
  cases houtput with
  | unbound => exact Iff.rfl
  | leaf l => exact Iff.rfl
  | output hi k => exact iff_of_false (fun heq => nomatch heq) fun heq => nomatch heq

theorem outputs_eq : p.outputs = p'.outputs := by
  unfold PassGraph.outputs
  congr 1
  refine List.filter_congr fun o _ => ?_
  rw [Bool.eq_iff_iff, bne_iff_ne, bne_iff_ne, Ne, Ne, h.unbound_iff o]

/-- A node that an output depends on corresponds to such a node. -/
theorem exists_live (hp : p.Linked) (hp' : p'.Linked) (hid : p.Live id) :
    ∃ id', p'.Live id' ∧ I id id' := by
  obtain ⟨id', hid', hI⟩ := h.visits.exists_mem id ((mem_visits_iff hp).2 hid)
  exact ⟨id', (mem_visits_iff hp').1 hid', hI⟩

end Alike

end PassGraph

namespace Document

variable {types : String → Outcome NodeType} {R : String → String → Prop} {d d' : Document}
  {w w' : WrittenPass} {p p' : PassGraph} {i i' : Nat}

/-- The nodes of a graph at corresponding positions are alike. -/
theorem Alike.exists_nodes (h : Alike types R d d' w w') (hp : d.BoundAsWritten types w p)
    (hp' : d'.BoundAsWritten types w' p') (hi : Corresponding R d d' i i') :
    ∃ m m', p.graph.node? i = some m ∧ p'.graph.node? i' = some m' ∧
      m.Alike (Corresponding R d d') m' := by
  obtain ⟨x, x', n, n', hn, hn', hx, halike⟩ := h.nodes_of_corresponding hi
  obtain ⟨m, hm, rfl, htype, hlength⟩ := hp.nodes.exists_getElem? i _ hn
  obtain ⟨m', hm', rfl, htype', hlength'⟩ := hp'.nodes.exists_getElem? i' _ hn'
  have hsame : m.type = m'.type := by
    rw [halike.type] at htype
    exact Except.ok.inj (htype.symm.trans htype')
  obtain ⟨hreaches, hreaches'⟩ := h.reached _ _ hx
  refine ⟨m, m', hm, hm', hsame, List.forall₂_iff_get.2 ⟨?_, fun k hk hk' => ?_⟩⟩
  · rw [hlength, hlength', hsame]
  · obtain ⟨pin, hpin⟩ : ∃ pin, m.type.inputs[k]? = some pin :=
      ⟨_, List.getElem?_eq_getElem (hlength ▸ hk)⟩
    have hpin' : m'.type.inputs[k]? = some pin := hsame ▸ hpin
    obtain ⟨v, b, c, hv, hb, hc, hstands⟩ :=
      hp.reached m (List.mem_of_getElem? hm) hreaches k pin hpin
    obtain ⟨v', b', c', hv', hb', hc', hstands'⟩ :=
      hp'.reached m' (List.mem_of_getElem? hm') hreaches' k pin hpin'
    cases (Table.get?_eq_some_iff.2 (List.mem_of_getElem? hn)).symm.trans hv
    cases (Table.get?_eq_some_iff.2 (List.mem_of_getElem? hn')).symm.trans hv'
    obtain ⟨b'', hb'', hbinding⟩ := halike.exists_input (Table.get?_eq_some_iff.1 hb)
    cases hb'.symm.trans (Table.get?_eq_some_iff.2 hb'')
    rw [List.get_eq_getElem, List.get_eq_getElem, (List.getElem?_eq_some_iff.1 hc).2,
      (List.getElem?_eq_some_iff.1 hc').2]
    exact h.stands hbinding hstands hstands'

/-- Where documents write a pass alike, its graphs are alike. -/
theorem Alike.passGraph (h : Alike types R d d' w w') (hp : d.BoundAsWritten types w p)
    (hp' : d'.BoundAsWritten types w' p') (hpass : p.pass = p'.pass) :
    p.Alike (Corresponding R d d') p' where
  graph := ⟨fun _ _ _ _ hi hj => h.corresponding_unique hi hj,
    fun _ _ hi => h.exists_nodes hp hp' hi⟩
  pass := hpass
  outputs o := by
    cases ho : w.output? o with
    | none =>
      have houtput := h.outputs o
      rw [ho] at houtput
      rw [hp.absent o ho, hp'.absent o houtput.eq_none]
      exact .unbound
    | some b =>
      obtain ⟨b', ho', hbinding⟩ := h.exists_output ho
      exact h.stands hbinding (hp.written o b ho) (hp'.written o b' ho')

end Document

end MaterialGraph
