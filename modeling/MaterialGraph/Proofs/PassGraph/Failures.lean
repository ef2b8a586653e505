import MaterialGraph.Proofs.PassGraph.Load
import MaterialGraph.Proofs.Settles

/-!
What loading the graph of a pass fails on. The graph stays on the nodes of the document
while it is wired, so no node, input or output that the wiring goes to is missing from
it; a failure is a compile error about the document or about a node type.
-/

namespace MaterialGraph

open Document (WrittenBinding WrittenNode WrittenPass)
open Document.Skeleton (IsNode)

/-- The errors of loading a shader: in its document, in its node types or about limits. -/
def CompileError.OfLoading : CompileError → Prop
  | unknownNodeType .. | malformedNodeType .. | malformedBinding .. | missingOutput ..
  | missingReturnRegister .. | missingInput .. | unknownInput .. | recursiveNode ..
  | invalidOutput .. | textureLimit .. | attributeLimit .. | lightLimit .. => True
  | unboundInput .. | unaddressableSource .. | texCoordLimit .. | missingInclude ..
  | optimizerFailed .. => False

namespace PassGraph

open CompileError (OfLoading)
open Outcome (Settles settles_compile settles_iff)

variable {d : Document} {types : String → Outcome NodeType} {w w' : Wiring} {id : Nat}
  {available : List Nat} {pass : Pass} {resolver : Resolver}

def BindingSettles (d : Document) (types : String → Outcome NodeType) (available : List Nat)
    (site : String) (b : WrittenBinding) (w : Wiring) : Prop :=
  d.Skeleton types w.graph →
    (wireBinding d.nodes.values available site b w).Settles OfLoading fun result =>
      d.Skeleton types result.2.graph ∧ d.Stands types b result.1

def NodeSettles (d : Document) (types : String → Outcome NodeType) (available : List Nat)
    (id : Nat) (w : Wiring) : Prop :=
  d.Skeleton types w.graph → id < d.nodes.size →
    (wireNode d.nodes.values available id w).Settles OfLoading fun w' => d.Skeleton types w'.graph

def InputsSettle (d : Document) (types : String → Outcome NodeType) (available : List Nat)
    (id : Nat) (n : Node) (written : Table WrittenBinding) (pins : List (Pin × Nat))
    (w : Wiring) : Prop :=
  ∀ e, IsNode d types id n e → (∀ p ∈ pins, p.2 < n.type.inputs.length) →
    d.Skeleton types w.graph →
    (wireInputs d.nodes.values available id n written pins w).Settles OfLoading
      fun w' => d.Skeleton types w'.graph

section Binding

variable {site : String} {b : WrittenBinding}

theorem namedOutput_settles {name output : String} {e : CompileError}
    (h : namedOutput w.graph site name output = .error e) : OfLoading e := by
  rw [Document.Skeleton.namedOutput_eq] at h
  split at h
  · cases h
    trivial
  · split at h
    · cases h
    · cases h
      split <;> trivial

theorem bindingSettles_node {name output : String} {ref : OutputRef}
    (h : classify site b = .ok (.node name output))
    (hnamed : namedOutput w.graph site name output = .ok ref)
    (hnode : NodeSettles d types available ref.node w) :
    BindingSettles d types available site b w := by
  intro hw
  have hstands := hw.namedOutput_eq_ok (classify_eq_ok h) hnamed
  obtain ⟨ref', n, heq, hentry⟩ :=
    hstands.output_of_refersTo (⟨output, classify_eq_ok h⟩ : b.RefersTo name)
  cases heq
  have hresult := hnode hw (List.getElem?_eq_some_iff.1 hentry).1
  rw [wireBinding, h]
  simp only [hnamed]
  cases hwire : wireNode d.nodes.values available ref.node w with
  | error f =>
    rw [hwire] at hresult
    exact hresult
  | ok w' =>
    rw [hwire] at hresult
    exact ⟨hresult, hstands⟩

end Binding

section Inputs

variable {n : Node} {written : Table WrittenBinding} {pin : Pin} {k : Nat}
  {rest : List (Pin × Nat)} {b : WrittenBinding}

/-- An input of a node can be bound to whatever a written binding stands for. -/
theorem bind_skeleton {g : Graph} (h : d.Skeleton types g) {e : WrittenNode}
    (hnode : IsNode d types id n e) (hk : k < n.type.inputs.length) {target : Binding}
    (htarget : d.Stands types b target) :
    ∃ g', bind g ⟨id, k⟩ target = .ok g' ∧ d.Skeleton types g' := by
  obtain ⟨n', hn', -, hnode'⟩ := h.node hnode.entry
  have htype : n'.type = n.type := Except.ok.inj (hnode'.type.symm.trans hnode.type)
  obtain ⟨g', hg', houtline, -⟩ := h.bind_eq_ok htarget hn' (htype ▸ hk)
  exact ⟨g', hg', h.of_outline houtline⟩

theorem inputsSettle_cons {g : Graph} {target : Binding} (hb : written.get? pin.name = some b)
    (hwire : wireBinding d.nodes.values available (n.name ++ "." ++ pin.name) b w =
      .ok (target, w'))
    (hbind : bind w'.graph ⟨id, k⟩ target = .ok g)
    (hbinding : BindingSettles d types available (n.name ++ "." ++ pin.name) b w)
    (hrest : InputsSettle d types available id n written rest ⟨g, w'.wired⟩) :
    InputsSettle d types available id n written ((pin, k) :: rest) w := by
  intro e hnode hpins hw
  have hresult := hbinding hw
  rw [hwire] at hresult
  obtain ⟨hw', htarget⟩ := hresult
  obtain ⟨g', hg', hskeleton⟩ := bind_skeleton hw' hnode (hpins _ List.mem_cons_self) htarget
  obtain rfl : g' = g := Except.ok.inj (hg'.symm.trans hbind)
  rw [wireInputs, hb]
  simp only [hwire, hbind]
  exact hrest e hnode (fun p hp => hpins p (List.mem_cons_of_mem _ hp)) hskeleton

theorem inputsSettle_binding_error {f : Failure} (hb : written.get? pin.name = some b)
    (hwire : wireBinding d.nodes.values available (n.name ++ "." ++ pin.name) b w = .error f)
    (hbinding : BindingSettles d types available (n.name ++ "." ++ pin.name) b w) :
    InputsSettle d types available id n written ((pin, k) :: rest) w := by
  intro e _ _ hw
  have hresult := hbinding hw
  rw [hwire] at hresult
  rw [wireInputs, hb]
  simp only [hwire]
  exact hresult

theorem inputsSettle_bind_error {f : Failure} {target : Binding}
    (hwire : wireBinding d.nodes.values available (n.name ++ "." ++ pin.name) b w =
      .ok (target, w'))
    (hbind : bind w'.graph ⟨id, k⟩ target = .error f)
    (hbinding : BindingSettles d types available (n.name ++ "." ++ pin.name) b w) :
    InputsSettle d types available id n written ((pin, k) :: rest) w := by
  intro e hnode hpins hw
  have hresult := hbinding hw
  rw [hwire] at hresult
  obtain ⟨hw', htarget⟩ := hresult
  obtain ⟨g, hg, -⟩ := bind_skeleton hw' hnode (hpins _ List.mem_cons_self) htarget
  cases hg.symm.trans hbind

end Inputs

section Node

variable {n : Node} {written : WrittenNode}

theorem nodeSettles_inputs (hunwired : ¬w.wired.contains id) (hn : w.graph.node? id = some n)
    (hwritten : d.nodes.values[id]? = some written) (hid : id ∈ available)
    (hknown : (written.inputs.names.find? fun k => (n.type.findInput? k).isNone) = none)
    (hinputs : InputsSettle d types (available.erase id) id n written.inputs
      n.type.inputs.zipIdx w) : NodeSettles d types available id w := by
  intro hw _
  obtain ⟨e, hnode⟩ := hw.isNode hn
  have hpins : ∀ p ∈ n.type.inputs.zipIdx, p.2 < n.type.inputs.length := fun p hp =>
    (List.getElem?_eq_some_iff.1 (List.mem_zipIdx_iff_getElem?.1 hp)).1
  have hresult := hinputs e hnode hpins hw
  rw [wireNode, if_neg hunwired]
  simp only [hn, hwritten, hid, dite_true, hknown]
  cases hwire : wireInputs d.nodes.values (available.erase id) id n written.inputs
      n.type.inputs.zipIdx w with
  | error f =>
    rw [hwire] at hresult
    exact hresult
  | ok w' =>
    rw [hwire] at hresult
    exact hresult

/-- Every node of the document is in the graph. -/
theorem nodeSettles_absent (h : ∀ n written, w.graph.node? id = some n →
    d.nodes.values[id]? = some written → False) : NodeSettles d types available id w := by
  intro hw hlt
  obtain ⟨written, hentry⟩ := Document.entry_of_lt hlt
  obtain ⟨n, hn, -, -⟩ := hw.node hentry
  refine (h n written hn ?_).elim
  rw [Table.values, List.getElem?_map, hentry, Option.map_some]

end Node

/-- Wiring what a binding refers to, by induction along the recursion of the walk. -/
theorem bindingSettles (d : Document) (types : String → Outcome NodeType) (available : List Nat)
    (site : String) (b : WrittenBinding) (w : Wiring) :
    BindingSettles d types available site b w := by
  refine (wireBinding.mutual_induct d.nodes.values (BindingSettles d types)
    (NodeSettles d types) (InputsSettle d types) ?unclassified ?leaf ?unnamed ?node ?wired
    ?unknown ?inputs ?cycle ?absent ?nil ?missing ?bindingError ?bindError ?cons).1
    available site b w
  case unclassified =>
    intro available site b w f h _
    rw [wireBinding, h]
    obtain ⟨fault, -, rfl⟩ := classify_eq_error h
    exact settles_compile trivial
  case leaf =>
    intro available site b w l h hw
    rw [wireBinding, h]
    exact ⟨hw, .leaf (classify_eq_ok h)⟩
  case unnamed =>
    intro available site b w name output h e hnamed _
    rw [wireBinding, h]
    simp only [hnamed]
    exact settles_compile (namedOutput_settles hnamed)
  case node => exact fun available site b w name output h ref => bindingSettles_node h
  case wired =>
    intro available id w h hw _
    rw [wireNode, if_pos h]
    exact hw
  case unknown =>
    intro available id w h n written hwritten hn hid _ key hkey _ _
    rw [wireNode, if_neg h]
    simp only [hn, hwritten, hid, dite_true, hkey]
    exact settles_compile trivial
  case inputs =>
    exact fun available id w h n written hwritten hn hid _ => nodeSettles_inputs h hn hwritten hid
  case cycle =>
    intro available id w h n written hwritten hn hid _ _
    rw [wireNode, if_neg h]
    simp only [hn, hwritten, hid, dite_false]
    exact settles_compile trivial
  case absent => exact fun available id w _ => nodeSettles_absent
  case nil =>
    intro available id n written w e _ _ hw
    rw [wireInputs]
    exact hw
  case missing =>
    intro available id n written w pin k rest h e _ _ hw
    rw [wireInputs, h]
    exact settles_compile trivial
  case bindingError =>
    exact fun available id n written w pin k rest b hb f => inputsSettle_binding_error hb
  case bindError =>
    exact fun available id n written w pin k rest b _ target w' hwire f =>
      inputsSettle_bind_error hwire
  case cons =>
    exact fun available id n written w pin k rest b hb target w' hwire g =>
      inputsSettle_cons hb hwire

theorem wireOutput_settles (hw : d.Skeleton types w.graph) (pass : Pass) (written : WrittenPass)
    (o : Output) : (wireOutput d pass written o w).Settles OfLoading
      fun result => d.Skeleton types result.2.graph := by
  cases hb : written.output? o with
  | none =>
    rw [wireOutput_none hb]
    exact hw
  | some b =>
    have hresult := bindingSettles d types w.graph.ids (pass.name ++ "." ++ o.key) b w hw
    rw [wireOutput_some hb]
    cases hwire : wireBinding d.nodes.values w.graph.ids (pass.name ++ "." ++ o.key) b w with
    | error f =>
      rw [hwire] at hresult
      exact hresult
    | ok result =>
      rw [hwire] at hresult
      by_cases hsampler : isSampler result.2.graph result.1
      · simp only [hsampler, if_true]
        exact ⟨_, rfl, trivial⟩
      · simp only [hsampler]
        exact hresult.1

theorem wireOutputs_settles {g : Graph} (hg : d.Skeleton types g) (pass : Pass)
    (written : WrittenPass) :
    (wireOutputs d pass written g).Settles OfLoading fun _ => True := by
  refine (wireOutput_settles (w := ⟨g, []⟩) hg pass written .color).bind fun color _ hcolor => ?_
  refine (wireOutput_settles hcolor pass written .alpha).bind fun alpha _ halpha => ?_
  exact (wireOutput_settles halpha pass written .depth).bind fun depth _ _ => trivial

/-- Where the resolver answers, a type that is not found is unknown or malformed. -/
theorem ofLoading_of_find_error (hresolver : resolver.Answers) {r : Registry} {name : String}
    {f : Failure} (h : Registry.find resolver r name = .error f) : f.Among OfLoading := by
  unfold Registry.find at h
  split at h
  · cases h
  · rcases Registry.fetch_eq_error h with hresolve | hcause | ⟨fault, hcause⟩
    · obtain ⟨text?, htext⟩ := hresolver .nodeType name
      cases htext.symm.trans hresolve
    · exact ⟨_, hcause, trivial⟩
    · exact ⟨_, hcause, trivial⟩

/-- A pass that writes no output has no graph; any other has one, or an error. -/
theorem loaded_settles (hresolver : resolver.Answers) (d : Document) (pass : Pass) (r : Registry) :
    (loaded resolver d pass r).Settles OfLoading fun p? => p? = none ↔ d.written? pass = none := by
  cases hwritten : d.written? pass with
  | none =>
    rw [loaded_of_absent hwritten]
    exact iff_of_true rfl rfl
  | some written =>
    rcases run_instantiate resolver d.name d.nodes.entries .empty r with
      ⟨nodes, r', hrun, hnodes⟩ | ⟨f, r', hrun, e, -, f', hfind, hcause⟩
    · rw [loaded_of_instances hwritten hrun]
      have hresult := wireOutputs_settles (skeleton_of_instances hnodes) pass written
      change Settles _ _ ((wireOutputs d pass written ⟨nodes⟩).map some)
      cases hwire : wireOutputs d pass written ⟨nodes⟩ with
      | error f =>
        rw [hwire] at hresult
        exact hresult
      | ok p => exact iff_of_false nofun nofun
    · rw [loaded_of_error hwritten hrun]
      obtain ⟨error, herror, hof⟩ := ofLoading_of_find_error hresolver hfind
      exact ⟨error, hcause.trans herror, hof⟩

end PassGraph

end MaterialGraph
