import MaterialGraph.PassGraph.Load
import MaterialGraph.Proofs.Document.References
import MaterialGraph.Proofs.Graph.Wiring

/-!
Graphs on the nodes of a document. In such a graph a node is found at the
position of its name in the document, a written binding names what it stands for,
and binding an input of a node to that never fails.
-/

/-- What stands at a position is related to what stands there in the other list. -/
theorem List.Forall₂.exists_getElem? {α β : Type*} {R : α → β → Prop} {l : List α} {l' : List β}
    (h : List.Forall₂ R l l') :
    ∀ (i : Nat) a, l[i]? = some a → ∃ b, l'[i]? = some b ∧ R a b := by
  induction h with
  | nil => simp
  | @cons a b l l' hab _ ih =>
    intro i a' ha'
    cases i with
    | zero =>
      cases ha'
      exact ⟨b, rfl, hab⟩
    | succ i => exact ih i a' ha'

namespace MaterialGraph

/-- The outline of a graph is that of the document's nodes, as instances of their types. -/
def Document.Skeleton (d : Document) (types : String → Outcome NodeType) (g : Graph) : Prop :=
  List.Forall₂ (fun e (o : String × NodeType × Nat × Nat) => ∃ t, types e.2.type = .ok t ∧
    o = (e.1, t, t.inputs.length, t.outputs.length)) d.nodes.entries g.outline

namespace Document.Skeleton

variable {d : Document} {types : String → Outcome NodeType} {g g' : Graph} {id : Nat}
  {name : String} {written : WrittenNode} {n : Node}

theorem of_outline (h : d.Skeleton types g) (ho : g'.outline = g.outline) :
    d.Skeleton types g' := by
  rwa [Skeleton, ho]

/-- A node of the graph is one of the document with its type. -/
structure IsNode (d : Document) (types : String → Outcome NodeType) (id : Nat) (n : Node)
    (written : WrittenNode) : Prop where
  entry : d.nodes.entries[id]? = some (n.name, written)
  type : types written.type = .ok n.type
  inputs_length : n.inputs.length = n.type.inputs.length
  consumers_length : n.consumers.length = n.type.outputs.length

private theorem isNode_of_outline {e : String × WrittenNode} {t : NodeType}
    (hentry : d.nodes.entries[id]? = some e) (ht : types e.2.type = .ok t)
    (ho : n.outline = (e.1, t, t.inputs.length, t.outputs.length)) : IsNode d types id n e.2 := by
  simp only [Node.outline, Prod.mk.injEq] at ho
  obtain ⟨hname, rfl, hinputs, hconsumers⟩ := ho
  exact ⟨by rw [hentry, hname], ht, hinputs, hconsumers⟩

theorem isNode (h : d.Skeleton types g) (hn : g.node? id = some n) :
    ∃ written, IsNode d types id n written := by
  have houtline : g.outline[id]? = some n.outline := by
    rw [Graph.outline_getElem?, hn, Option.map_some]
  obtain ⟨e, hentry, t, ht, ho⟩ := h.flip.exists_getElem? id _ houtline
  exact ⟨e.2, isNode_of_outline hentry ht ho⟩

theorem node (h : d.Skeleton types g) (hentry : d.nodes.entries[id]? = some (name, written)) :
    ∃ n, g.node? id = some n ∧ n.name = name ∧ IsNode d types id n written := by
  obtain ⟨o, houtline, t, ht, rfl⟩ := h.exists_getElem? id _ hentry
  rw [Graph.outline_getElem?] at houtline
  obtain ⟨n, hn, ho⟩ := Option.map_eq_some_iff.1 houtline
  have hnode := isNode_of_outline hentry ht ho
  exact ⟨n, hn, congrArg (fun o => o.1) ho, hnode⟩

theorem size_eq (h : d.Skeleton types g) : g.size = d.nodes.size := by
  have hlength := h.length_eq
  rw [Graph.outline, List.length_map] at hlength
  exact hlength.symm

/-- A name is found at its position in the document. -/
theorem find?_eq_some_iff (h : d.Skeleton types g) :
    g.find? name = some id ↔ ∃ written, d.nodes.entries[id]? = some (name, written) := by
  rw [Graph.find?, List.findIdx?_eq_some_iff_getElem]
  constructor
  · rintro ⟨hlt, hname, -⟩
    obtain ⟨written, hnode⟩ := h.isNode (List.getElem?_eq_getElem hlt)
    exact ⟨written, eq_of_beq hname ▸ hnode.entry⟩
  · rintro ⟨written, hentry⟩
    obtain ⟨n, hn, hname, -⟩ := h.node hentry
    obtain ⟨hlt, rfl⟩ := List.getElem?_eq_some_iff.1 hn
    refine ⟨hlt, beq_iff_eq.2 hname, fun j hj hsame => ?_⟩
    obtain ⟨other, hother⟩ := h.isNode (List.getElem?_eq_getElem (Nat.lt_trans hj hlt))
    have := Table.position_unique hother.entry hentry (eq_of_beq hsame)
    omega

theorem findIdx?_lt {α : Type*} {l : List α} {p : α → Bool} {k : Nat}
    (h : l.findIdx? p = some k) : k < l.length :=
  (List.findIdx?_eq_some_iff_findIdx_eq.1 h).1

theorem namedOutput?_lt {t : NodeType} {output : String} {k : Nat}
    (h : t.namedOutput? output = some k) : k < t.outputs.length := by
  unfold NodeType.namedOutput? at h
  split at h
  · exact findIdx?_lt h
  · exact findIdx?_lt h

theorem namedOutput_eq (g : Graph) (site name output : String) :
    PassGraph.namedOutput g site name output =
      match g.find? name with
      | none => .error (.malformedBinding site (.noSuchNode name))
      | some id =>
        match ((g.node? id).elim default Node.type).namedOutput? output with
        | some k => .ok ⟨id, k⟩
        | none => .error (if output = returnOutput then .missingReturnRegister name
            else .missingOutput name output) := by
  unfold PassGraph.namedOutput NodeType.namedOutput?
  cases g.find? name with
  | none => rfl
  | some id =>
    by_cases h : output = returnOutput
    · cases hk : ((g.node? id).elim default Node.type).findOutputRegister? returnRegister with
      | none => simp [h, hk]
      | some k => simp [h, hk]
    · cases hk : ((g.node? id).elim default Node.type).findOutput? output with
      | none => simp [h, hk]
      | some k => simp [h, hk]

/-- What a node reference names is what the binding stands for. -/
theorem namedOutput_eq_ok (h : d.Skeleton types g) {b : WrittenBinding} {site output : String}
    {ref : OutputRef} (hb : b.classify = .ok (.node name output))
    (hnamed : PassGraph.namedOutput g site name output = .ok ref) :
    d.Stands types b (.output ref) := by
  rw [namedOutput_eq] at hnamed
  split at hnamed
  · cases hnamed
  · next id hfind =>
    obtain ⟨written, hentry⟩ := h.find?_eq_some_iff.1 hfind
    obtain ⟨n, hn, -, hnode⟩ := h.node hentry
    rw [hn] at hnamed
    split at hnamed
    · next k hk =>
      cases hnamed
      exact .output hb hentry hnode.type hk
    · cases hnamed

/-- A node reference that names nothing stands for nothing. -/
theorem namedOutput_eq_error (h : d.Skeleton types g) {b : WrittenBinding} {site output : String}
    {e : CompileError} (hb : b.classify = .ok (.node name output))
    (hnamed : PassGraph.namedOutput g site name output = .error e) :
    (∀ target, ¬d.Stands types b target) ∧ ∀ node, e ≠ .recursiveNode node := by
  have hnot : ∀ {id : Nat} {written t k}, d.nodes.entries[id]? = some (name, written) →
      types written.type = .ok t → t.namedOutput? output = some k → False := by
    intro id written t k hentry ht hk
    obtain ⟨n, hn, -, hnode⟩ := h.node hentry
    cases ht.symm.trans hnode.type
    simp [namedOutput_eq, h.find?_eq_some_iff.2 ⟨written, hentry⟩, hn, hk] at hnamed
  refine ⟨fun target htarget => ?_, fun node he => ?_⟩
  · cases htarget with
    | leaf hl => cases hb.symm.trans hl
    | output hb' hn ht hk =>
      cases hb.symm.trans hb'
      exact hnot hn ht hk
  · subst he
    rw [namedOutput_eq] at hnamed
    split at hnamed
    · cases hnamed
    · split at hnamed
      · cases hnamed
      · split at hnamed <;> cases hnamed

/-- Binding an input to what a written binding stands for never fails. -/
theorem bind_eq_ok (h : d.Skeleton types g) {b : WrittenBinding} {target : Binding}
    (htarget : d.Stands types b target) (hn : g.node? id = some n) {k : Nat}
    (hk : k < n.type.inputs.length) :
    ∃ g', PassGraph.bind g ⟨id, k⟩ target = .ok g' ∧ g'.outline = g.outline ∧
      ∀ j, g'.binding? j = if j = ⟨id, k⟩ then some target else g.binding? j := by
  obtain ⟨written, hnode⟩ := h.isNode hn
  have hinput : g.checkInput ⟨id, k⟩ = .ok () := by
    have hlt : k < n.inputs.length := hnode.inputs_length ▸ hk
    simp [Graph.checkInput, hn, hlt]
  cases htarget with
  | @leaf l hl =>
    have hok : g.bindLeaf ⟨id, k⟩ l = .ok ((g.disconnect ⟨id, k⟩).setInput ⟨id, k⟩ (.leaf l)) := by
      simp only [Graph.bindLeaf, hinput, bind, Except.bind]
    exact ⟨_, by rw [PassGraph.bind, hok]; rfl, Graph.outline_bindLeaf hok,
      Graph.binding?_bindLeaf hok⟩
  | @output name output id' k' written' t hb hentry ht hk' =>
    obtain ⟨n', hn', -, hnode'⟩ := h.node hentry
    have houtput : g.checkOutput ⟨id', k'⟩ = .ok () := by
      cases ht.symm.trans hnode'.type
      have hlt : k' < n'.consumers.length := hnode'.consumers_length ▸ namedOutput?_lt hk'
      simp [Graph.checkOutput, hn', hlt]
    have hok : g.connect ⟨id', k'⟩ ⟨id, k⟩ = .ok
        (((g.disconnect ⟨id, k⟩).setInput ⟨id, k⟩ (.output ⟨id', k'⟩)).modifyConsumers ⟨id', k'⟩
          (InputRef.insert ⟨id, k⟩)) := by
      simp only [Graph.connect, houtput, hinput, bind, Except.bind]
    exact ⟨_, by rw [PassGraph.bind, hok]; rfl, Graph.outline_connect hok,
      Graph.binding?_connect hok⟩

end Document.Skeleton

end MaterialGraph
