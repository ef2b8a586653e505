import MaterialGraph.Proofs.PassGraph.Outputs
import MaterialGraph.Proofs.Registry
import MaterialGraph.Resource.Basic

/-!
Loading the graph of a pass from a document. Main statement: a graph is loaded
exactly from the documents that are loadable, it is bound as the document writes
it, and a failure about a cycle names a node on a cycle that the pass reaches.
-/

namespace MaterialGraph

open Relation (TransGen)
open Document (WrittenNode WrittenPass)

namespace PassGraph

variable {d : Document} {types : String → Outcome NodeType} {pass : Pass} {written : WrittenPass}
  {resolver : Resolver} {r : Registry}

section Instances

/-- Every node of a document becomes an instance of the type found for it. -/
def InstancesOf (types : String → Outcome NodeType) (entries : List (String × WrittenNode))
    (nodes : List Node) : Prop :=
  List.Forall₂ (fun e n => ∃ t, types e.2.type = .ok t ∧ n = .ofType e.1 t) entries nodes

theorem run_instantiate (resolver : Resolver) (shader : String)
    (entries : List (String × WrittenNode)) :
    ∀ (g : Graph) (r : Registry),
      (∃ nodes r', (instantiate resolver shader entries g).run r = (.ok ⟨g.nodes ++ nodes⟩, r') ∧
        InstancesOf (Registry.find resolver r) entries nodes) ∨
      ∃ f r', (instantiate resolver shader entries g).run r = (.error f, r') ∧
        ∃ e ∈ entries, ∃ f', Registry.find resolver r e.2.type = .error f' ∧
          f.cause = f'.cause := by
  induction entries with
  | nil =>
    intro g r
    refine .inl ⟨[], r, ?_, .nil⟩
    rw [instantiate, List.append_nil]
    rfl
  | cons e rest ih =>
    obtain ⟨name, n⟩ := e
    intro g r
    obtain ⟨r', hload, hsame⟩ := Registry.run_load resolver n.type r
    have hduring := Loading.run_during ("node '" ++ name ++ "' of shader '" ++ shader ++ "'")
      (Registry.load resolver n.type) r
    rw [hload] at hduring
    rw [instantiate]
    cases hfind : Registry.find resolver r n.type with
    | error f =>
      rw [hfind] at hduring
      exact .inr ⟨_, r', Loading.run_bind_of_error hduring, (name, n), List.mem_cons_self, f,
        hfind, rfl⟩
    | ok t =>
      rw [hfind] at hduring
      rw [Loading.run_bind_of_ok hduring]
      rcases ih (g.instantiate name t) r' with
        ⟨nodes, r'', hrun, hnodes⟩ | ⟨f, r'', hrun, e, he, hf⟩
      · refine .inl ⟨.ofType name t :: nodes, r'', ?_, .cons ⟨t, hfind, rfl⟩ (hsame ▸ hnodes)⟩
        rw [hrun, Graph.instantiate, List.append_assoc]
        rfl
      · rw [hsame] at hf
        exact .inr ⟨f, r'', hrun, e, List.mem_cons_of_mem _ he, hf⟩

theorem skeleton_of_instances {nodes : List Node} (h : InstancesOf types d.nodes.entries nodes) :
    d.Skeleton types ⟨nodes⟩ := by
  refine List.forall₂_map_right_iff.2 (h.imp fun e n ⟨t, ht, hn⟩ => ⟨t, ht, ?_⟩)
  subst hn
  simp [Node.outline, Node.ofType]

/-- The instances have no wires. -/
theorem unbound_of_instances {entries : List (String × WrittenNode)} {nodes : List Node}
    (h : InstancesOf types entries nodes) (i : InputRef) (target : Binding)
    (htarget : (Graph.mk nodes).binding? i = some target) : target = .unbound := by
  obtain ⟨n, hn, hinput⟩ := Option.bind_eq_some_iff.1 htarget
  obtain ⟨e, -, t, -, rfl⟩ := h.flip.exists_getElem? _ _ hn
  simp only [Node.ofType, List.getElem?_map, Option.map_eq_some_iff] at hinput
  obtain ⟨-, -, rfl⟩ := hinput
  rfl

theorem known_of_instances {entries : List (String × WrittenNode)} {nodes : List Node}
    (h : InstancesOf types entries nodes) : ∀ e ∈ entries, ∃ t, types e.2.type = .ok t := by
  intro e he
  obtain ⟨i, hi⟩ := List.getElem?_of_mem he
  obtain ⟨n, -, t, ht, -⟩ := h.exists_getElem? i e hi
  exact ⟨t, ht⟩

end Instances

/-- The result of loading the graph of a pass; what is kept in the registry is left out. -/
def loaded (resolver : Resolver) (d : Document) (pass : Pass) (r : Registry) :
    Outcome (Option PassGraph) :=
  ((load resolver d pass).run r).1

theorem run_load_of_absent (h : d.written? pass = none) :
    (load resolver d pass).run r = (.ok none, r) := by
  unfold load
  cases hpass : d.pass? pass with
  | none => rfl
  | some written =>
    have hempty : written.isEmpty := by simpa [Document.written?, hpass] using h
    simp only [hempty, if_true]
    rfl

theorem loaded_of_absent (h : d.written? pass = none) : loaded resolver d pass r = .ok none :=
  congrArg Prod.fst (run_load_of_absent h)

theorem pass?_of_written? (h : d.written? pass = some written) :
    d.pass? pass = some written ∧ ¬written.isEmpty := by
  simpa [Document.written?, Option.filter_eq_some_iff] using h

theorem loaded_of_instances (h : d.written? pass = some written) {g : Graph} {r' : Registry}
    (hrun : (instantiate resolver d.name d.nodes.entries .empty).run r = (.ok g, r')) :
    loaded resolver d pass r = (wireOutputs d pass written g).map some := by
  obtain ⟨hpass, hempty⟩ := pass?_of_written? h
  unfold loaded load
  simp only [hpass, hempty, Bool.false_eq_true, if_false]
  rw [Loading.run_bind_of_ok hrun]
  cases wireOutputs d pass written g with
  | error f => rfl
  | ok p => rfl

theorem loaded_of_error (h : d.written? pass = some written) {f : Failure} {r' : Registry}
    (hrun : (instantiate resolver d.name d.nodes.entries .empty).run r = (.error f, r')) :
    loaded resolver d pass r = .error f := by
  obtain ⟨hpass, hempty⟩ := pass?_of_written? h
  unfold loaded load
  simp only [hpass, hempty, Bool.false_eq_true, if_false]
  rw [Loading.run_bind_of_error hrun]

/-- A failure to find a type is not about a cycle, unless the resolver's own is. -/
theorem cause_of_find_error {name : String} {f : Failure}
    (h : Registry.find resolver r name = .error f) :
    (∀ node, f.cause ≠ .compile (.recursiveNode node)) ∨
      ∃ g, resolver.resolve .nodeType name = .error g ∧ g.cause = f.cause := by
  unfold Registry.find at h
  split at h
  · cases h
  · rcases Registry.fetch_eq_error h with hresolve | hcause | ⟨fault, hcause⟩
    · exact .inr ⟨f, hresolve, rfl⟩
    · exact .inl fun node hnode => (by cases hcause.symm.trans hnode)
    · exact .inl fun node hnode => (by cases hcause.symm.trans hnode)

/-- What loading comes to if the document writes an output for the pass: a graph from a
loadable document, or a failure. -/
theorem loaded_cases (resolver : Resolver) (r : Registry) (h : d.written? pass = some written) :
    (∃ p, loaded resolver d pass r = .ok (some p) ∧ p.pass = pass ∧
      d.BoundAsWritten (Registry.find resolver r) written p ∧
      d.Loadable (Registry.find resolver r) written) ∨
    ∃ f, loaded resolver d pass r = .error f ∧
      ¬d.Loadable (Registry.find resolver r) written ∧
      ∀ node, f.cause = .compile (.recursiveNode node) →
        d.Reaches written node ∧ TransGen d.Refers node node ∨
          ∃ type g, resolver.resolve .nodeType type = .error g ∧ g.cause = f.cause := by
  rcases run_instantiate resolver d.name d.nodes.entries .empty r with
    ⟨nodes, r', hrun, hnodes⟩ | ⟨f, r', hrun, e, he, f', hfind, hcause⟩
  · have hresult := wireOutputs_wired (skeleton_of_instances hnodes) pass written
    rw [loaded_of_instances h (g := ⟨nodes⟩) hrun]
    cases hwire : wireOutputs d pass written ⟨nodes⟩ with
    | error f =>
      rw [hwire] at hresult
      exact .inr ⟨f, rfl, hresult.not_loadable, fun node hnode => .inl (hresult.cycle node hnode)⟩
    | ok p =>
      rw [hwire] at hresult
      obtain ⟨hpass, wired, hw, hextends, htakes⟩ := hresult
      exact .inl ⟨p, rfl, hpass,
        boundAsWritten_of_wired hw hextends htakes (unbound_of_instances hnodes),
        loadable_of_wired (known_of_instances hnodes) hw htakes⟩
  · refine .inr ⟨f, loaded_of_error h hrun, fun hloadable => ?_, fun node hnode => ?_⟩
    · obtain ⟨t, ht⟩ := hloadable.known e he
      cases ht.symm.trans hfind
    · rcases cause_of_find_error hfind with hother | ⟨g, hg, hcause'⟩
      · exact absurd (hcause ▸ hnode) (hother node)
      · exact .inr ⟨_, g, hg, hcause'.trans hcause.symm⟩

/-- A graph that was loaded is bound as the document writes it. -/
theorem bound_of_loaded {p : PassGraph} (h : d.written? pass = some written)
    (hp : loaded resolver d pass r = .ok (some p)) :
    p.pass = pass ∧ d.BoundAsWritten (Registry.find resolver r) written p := by
  rcases loaded_cases resolver r h with ⟨q, hq, hpass, hbound, -⟩ | ⟨f, hf, -⟩
  · cases hq.symm.trans hp
    exact ⟨hpass, hbound⟩
  · cases hf.symm.trans hp

/-- Loading is exact. If the document writes no output for the pass there is no
graph; otherwise there is one exactly if the document is loadable, and it is
bound as the document writes it. A failure about a cycle names a node on a cycle
that the pass reaches, unless it was the resolver that failed with it. -/
theorem loaded_exact (resolver : Resolver) (d : Document) (pass : Pass) (r : Registry) :
    (d.written? pass = none → loaded resolver d pass r = .ok none) ∧
      ∀ written, d.written? pass = some written →
        ((∃ p, loaded resolver d pass r = .ok (some p)) ↔
          d.Loadable (Registry.find resolver r) written) ∧
        (∀ p, loaded resolver d pass r = .ok p → ∃ q, p = some q ∧ q.pass = pass ∧
          d.BoundAsWritten (Registry.find resolver r) written q) ∧
        ∀ f node, loaded resolver d pass r = .error f →
          f.cause = .compile (.recursiveNode node) →
          d.Reaches written node ∧ TransGen d.Refers node node ∨
            ∃ type g, resolver.resolve .nodeType type = .error g ∧ g.cause = f.cause := by
  refine ⟨loaded_of_absent, fun written hwritten => ?_⟩
  rcases loaded_cases resolver r hwritten with
    ⟨p, hp, hpass, hbound, hloadable⟩ | ⟨f, hf, hnot, hcycle⟩
  · rw [hp]
    refine ⟨iff_of_true ⟨p, rfl⟩ hloadable, fun q hq => ?_, fun f node hf => (nomatch hf)⟩
    cases hq
    exact ⟨p, rfl, hpass, hbound⟩
  · rw [hf]
    refine ⟨iff_of_false (fun ⟨p, hp⟩ => (nomatch hp)) hnot, fun p hp => (nomatch hp),
      fun f₀ node hf₀ hnode => ?_⟩
    cases hf₀
    exact hcycle node hnode

/-- A document with a single node, which reads the color and gives that of the default pass. -/
def tinted : Document where
  name := "tinted"
  nodes := Table.empty.insert "tint" ⟨"Tint", Table.empty.insert "c" { source := some "color" }⟩
  passes := Table.empty.insert "Default" { color := some { node := some "tint" } }

def tintType : NodeType :=
  ⟨"Tint", [⟨"c", .float4, none, 0⟩], [⟨"r", .float4, none, -1⟩], none⟩

def tintTypes : Registry :=
  Table.empty.insert "Tint" tintType

def tintPass : WrittenPass where
  color := some { node := some "tint" }

theorem tinted_get? {name : String} {n : WrittenNode} (h : tinted.nodes.get? name = some n) :
    name = "tint" ∧ n = ⟨"Tint", Table.empty.insert "c" { source := some "color" }⟩ := by
  have hmem := Table.get?_eq_some_iff.1 h
  change (name, n) ∈ [_] at hmem
  exact Prod.mk.inj (List.mem_singleton.1 hmem)

theorem tinted_not_refers (x y : String) : ¬tinted.Refers x y := by
  rintro ⟨n, hn, e, he, output, hb⟩
  obtain ⟨-, rfl⟩ := tinted_get? hn
  change e ∈ [_] at he
  obtain rfl := List.mem_singleton.1 he
  cases hb

theorem tinted_stands (types : String → Outcome NodeType) (ht : types "Tint" = .ok tintType) :
    tinted.Stands types { node := some "tint" } (.output ⟨0, 0⟩) :=
  .output rfl rfl ht rfl

theorem tinted_loadable (resolver : Resolver) :
    tinted.Loadable (Registry.find resolver tintTypes) tintPass := by
  have ht : Registry.find resolver tintTypes "Tint" = .ok tintType := rfl
  refine ⟨fun e he => ?_, fun o b hb => ?_, fun o b ref hb href => ?_, fun name _ => ⟨?_, ?_, ?_⟩⟩
  · change e ∈ [_] at he
    obtain rfl := List.mem_singleton.1 he
    exact ⟨_, ht⟩
  · cases o <;> cases hb
    exact ⟨_, tinted_stands _ ht⟩
  · cases o <;> cases hb
    cases href.unique (tinted_stands _ ht)
    rintro ⟨name, n, t, pin, hentry, ht', hpin, hsampler⟩
    cases hentry
    cases ht'.symm.trans ht
    cases hpin
    cases hsampler
  · intro n hn e he
    obtain ⟨-, rfl⟩ := tinted_get? hn
    change e ∈ [_] at he
    obtain rfl := List.mem_singleton.1 he
    exact ⟨_, .leaf (l := ⟨.color, 0⟩) rfl⟩
  · intro n t hn ht' key
    obtain ⟨-, rfl⟩ := tinted_get? hn
    cases ht'.symm.trans ht
    rw [← Table.mem_names_iff]
    rfl
  · intro hcycle
    obtain ⟨x, -, hx⟩ := TransGen.tail'_iff.1 hcycle
    exact tinted_not_refers _ _ hx

theorem loaded_exact_tinted :
    ∃ p, loaded (ResourceTable.resolver {}) tinted .default tintTypes = .ok (some p) ∧
      tinted.BoundAsWritten (Registry.find (ResourceTable.resolver {}) tintTypes) tintPass p ∧
      p.color = .output ⟨0, 0⟩ := by
  obtain ⟨hexact, hbound, -⟩ :=
    (loaded_exact (ResourceTable.resolver {}) tinted .default tintTypes).2 tintPass rfl
  obtain ⟨p, hp⟩ := hexact.2 (tinted_loadable _)
  obtain ⟨q, hq, -, hbound⟩ := hbound _ hp
  cases hq
  refine ⟨p, hp, hbound, ?_⟩
  exact (hbound.written .color _ rfl).unique (tinted_stands _ rfl)

end PassGraph

end MaterialGraph
