import MaterialGraph.Proofs.PassGraph.Walk

/-!
The outputs of a pass, wired one after the other. The nodes that the pass reaches
are wired then and the others have no wires, so the graph is bound as the document
writes it.
-/

namespace MaterialGraph

open Relation (TransGen)
open Document (WrittenBinding WrittenPass)

namespace PassGraph

variable {d : Document} {types : String → Outcome NodeType} {w w' : Wiring} {pass : Pass}
  {written : WrittenPass} {o : Output}

/-- A failure that the document is to blame for; one about a cycle names a node on it. -/
structure Refused (d : Document) (types : String → Outcome NodeType) (written : WrittenPass)
    (f : Failure) : Prop where
  not_loadable : ¬d.Loadable types written
  cycle : ∀ node, f.cause = .compile (.recursiveNode node) →
    d.Reaches written node ∧ TransGen d.Refers node node

theorem Refused.of_binding {b : WrittenBinding} {f f' : Failure}
    (hb : written.output? o = some b) (h : d.BlamesBinding types f b) (hf : f'.cause = f.cause) :
    Refused d types written f' := by
  rcases h with ⟨hstands, hcause⟩ | ⟨name, hname, hblames⟩
  · refine ⟨fun hloadable => ?_, fun node hnode => absurd (hf ▸ hnode) (hcause node)⟩
    obtain ⟨target, htarget⟩ := hloadable.outputs o b hb
    exact hstands target htarget
  · refine ⟨fun hloadable => ?_, fun node hnode => ?_⟩
    · obtain ⟨x, hx, hflaw⟩ := hblames.flaw
      exact hflaw (hloadable.wireable x ⟨o, b, name, hb, hname, hx⟩)
    · obtain ⟨hpath, hcycle⟩ := hblames.cycle node (hf ▸ hnode)
      exact ⟨⟨o, b, name, hb, hname, hpath⟩, hcycle⟩

/-- Whether an output takes its value as the document writes it, from a node that is wired. -/
structure TakesAsWritten (d : Document) (types : String → Outcome NodeType)
    (written : WrittenPass) (w : Wiring) (o : Output) (target : Binding) : Prop where
  absent : written.output? o = none → target = .unbound
  stands : ∀ b, written.output? o = some b → d.Stands types b target
  wired : ∀ ref, target = .output ref → ref.node ∈ w.wired
  not_sampler : ∀ ref, target = .output ref → ¬d.SamplerAt types ref

theorem TakesAsWritten.mono {target : Binding} (h : TakesAsWritten d types written w o target)
    (hw : ∀ x ∈ w.wired, x ∈ w'.wired) : TakesAsWritten d types written w' o target :=
  ⟨h.absent, h.stands, fun ref href => hw _ (h.wired ref href), h.not_sampler⟩

theorem isSampler_iff (h : d.Skeleton types w.graph) (ref : OutputRef) :
    isSampler w.graph (.output ref) ↔ d.SamplerAt types ref := by
  rw [isSampler, Option.any_eq_true]
  constructor
  · rintro ⟨pin, hpin, hsampler⟩
    obtain ⟨n, hn, hpin⟩ := Option.bind_eq_some_iff.1 hpin
    obtain ⟨written, hnode⟩ := h.isNode hn
    exact ⟨n.name, written, n.type, pin, hnode.entry, hnode.type, hpin, hsampler⟩
  · rintro ⟨name, written, t, pin, hentry, ht, hpin, hsampler⟩
    obtain ⟨n, hn, -, hnode⟩ := h.node hentry
    cases ht.symm.trans hnode.type
    exact ⟨pin, Option.bind_eq_some_iff.2 ⟨n, hn, hpin⟩, hsampler⟩

/-- The result of wiring an output. -/
def OutputWired (d : Document) (types : String → Outcome NodeType) (written : WrittenPass)
    (o : Output) (w : Wiring) : Outcome (Binding × Wiring) → Prop
  | .ok (target, w') => w'.Sound d types ∧
      w.Extends d (List.range d.nodes.size) (d.Reaches written) (fun _ => False) w' ∧
      TakesAsWritten d types written w' o target
  | .error f => Refused d types written f

theorem wireOutput_none (h : written.output? o = none) :
    wireOutput d pass written o w = .ok (.unbound, w) := by
  rw [wireOutput, h]

theorem wireOutput_some {b : WrittenBinding} (h : written.output? o = some b) :
    wireOutput d pass written o w =
      match wireBinding d.nodes.values w.graph.ids (pass.name ++ "." ++ o.key) b w with
      | .error f => .error (f.during ("shader '" ++ d.name ++ "' pass " ++ pass.name))
      | .ok (target, w') =>
        if isSampler w'.graph target then
          .error ((Failure.compile (.invalidOutput pass o)).during ("shader '" ++ d.name ++ "'"))
        else .ok (target, w') := by
  simp only [wireOutput, h]
  cases wireBinding d.nodes.values w.graph.ids (pass.name ++ "." ++ o.key) b w <;> rfl

theorem wireOutput_leaf {b : WrittenBinding} {l : Leaf} (h : written.output? o = some b)
    (hl : b.classify = .ok (.leaf l)) : wireOutput d pass written o w = .ok (.leaf l, w) := by
  rw [wireOutput_some h, wireBinding, classify, hl]
  rfl

theorem wireOutput_wired (hw : w.Sound d types) (pass : Pass) (written : WrittenPass) (o : Output) :
    OutputWired d types written o w (wireOutput d pass written o w) := by
  cases hb : written.output? o with
  | none =>
    rw [wireOutput_none hb]
    exact ⟨hw, .refl .., fun _ => rfl, fun b hb' => (nomatch hb.symm.trans hb'), nofun, nofun⟩
  | some b =>
    have hids : w.graph.ids = List.range d.nodes.size := by rw [Graph.ids, hw.skeleton.size_eq]
    have hresult := wiresBinding d types (List.range d.nodes.size) (pass.name ++ "." ++ o.key) b w
      hw List.nodup_range fun a _ => OnWay.start _ _ a
    rw [wireOutput_some hb, hids]
    cases hwire : wireBinding d.nodes.values (List.range d.nodes.size)
        (pass.name ++ "." ++ o.key) b w with
    | error f =>
      rw [hwire] at hresult
      exact Refused.of_binding hb hresult rfl
    | ok result =>
      obtain ⟨target, w'⟩ := result
      rw [hwire] at hresult
      obtain ⟨hw', hextends, htarget, hwired⟩ := hresult
      by_cases hsampler : isSampler w'.graph target
      · simp only [hsampler, if_true]
        cases htarget with
        | leaf hl => cases hsampler
        | output hb' hn ht hk =>
          refine ⟨fun hloadable => ?_, fun node => nofun⟩
          exact hloadable.samplers o b _ hb (.output hb' hn ht hk)
            ((isSampler_iff hw'.skeleton _).1 hsampler)
      · simp only [hsampler]
        refine ⟨hw', hextends.weaken (fun _ hx => hx) ?_, ?_⟩
        · exact fun x ⟨name, hname, hx⟩ => ⟨o, b, name, hb, hname, hx⟩
        · refine ⟨fun hnone => (nomatch hb.symm.trans hnone), fun b' hb' => ?_, hwired, ?_⟩
          · cases hb.symm.trans hb'
            exact htarget
          · rintro ref rfl hsampler'
            exact hsampler ((isSampler_iff hw'.skeleton ref).2 hsampler')

/-- The result of wiring all outputs, from a graph without wires. -/
def OutputsWired (d : Document) (types : String → Outcome NodeType) (pass : Pass)
    (written : WrittenPass) (g : Graph) : Outcome PassGraph → Prop
  | .ok p => p.pass = pass ∧ ∃ wired, Wiring.Sound d types ⟨p.graph, wired⟩ ∧
      Wiring.Extends ⟨g, []⟩ d (List.range d.nodes.size) (d.Reaches written) (fun _ => False)
        ⟨p.graph, wired⟩ ∧
      ∀ o, TakesAsWritten d types written ⟨p.graph, wired⟩ o (p.output o)
  | .error f => Refused d types written f

theorem wireOutputs_wired {g : Graph} (hg : d.Skeleton types g) (pass : Pass)
    (written : WrittenPass) :
    OutputsWired d types pass written g (wireOutputs d pass written g) := by
  have hinitial : Wiring.Sound d types ⟨g, []⟩ := ⟨hg, nofun⟩
  have hresult₁ := wireOutput_wired hinitial pass written .color
  simp only [wireOutputs, Bind.bind, Except.bind]
  cases hcolor : wireOutput d pass written .color ⟨g, []⟩ with
  | error f =>
    rw [hcolor] at hresult₁
    exact hresult₁
  | ok result₁ =>
    obtain ⟨color, w₁⟩ := result₁
    rw [hcolor] at hresult₁
    obtain ⟨hw₁, hextends₁, htakes₁⟩ := hresult₁
    have hresult₂ := wireOutput_wired hw₁ pass written .alpha
    simp only
    cases halpha : wireOutput d pass written .alpha w₁ with
    | error f =>
      rw [halpha] at hresult₂
      exact hresult₂
    | ok result₂ =>
      obtain ⟨alpha, w₂⟩ := result₂
      rw [halpha] at hresult₂
      obtain ⟨hw₂, hextends₂, htakes₂⟩ := hresult₂
      have hresult₃ := wireOutput_wired hw₂ pass written .depth
      simp only
      cases hdepth : wireOutput d pass written .depth w₂ with
      | error f =>
        rw [hdepth] at hresult₃
        exact hresult₃
      | ok result₃ =>
        obtain ⟨depth, w₃⟩ := result₃
        rw [hdepth] at hresult₃
        obtain ⟨hw₃, hextends₃, htakes₃⟩ := hresult₃
        refine ⟨rfl, w₃.wired, hw₃, (hextends₁.trans hextends₂).trans hextends₃, fun o => ?_⟩
        cases o with
        | color => exact (htakes₁.mono hextends₂.mono).mono hextends₃.mono
        | alpha => exact htakes₂.mono hextends₃.mono
        | depth => exact htakes₃

section Wired

variable {p : PassGraph} {wired : List Nat} {g : Graph}

/-- The nodes that a pass reaches are wired. -/
theorem exists_wired_of_reaches (hw : w.Sound d types)
    (htakes : ∀ o, TakesAsWritten d types written w o (p.output o)) {name : String}
    (h : d.Reaches written name) : ∃ i ∈ w.wired, d.nameAt i = name := by
  obtain ⟨o, b, a, hb, hname, hpath⟩ := h
  obtain ⟨ref, n, href, hentry⟩ := ((htakes o).stands b hb).output_of_refersTo hname
  rw [← Document.nameAt_eq hentry] at hpath
  exact hw.exists_wired ((htakes o).wired ref href) hpath

theorem loadable_of_wired (hknown : ∀ e ∈ d.nodes.entries, ∃ t, types e.2.type = .ok t)
    (hw : w.Sound d types) (htakes : ∀ o, TakesAsWritten d types written w o (p.output o)) :
    d.Loadable types written where
  known := hknown
  outputs o b hb := ⟨p.output o, (htakes o).stands b hb⟩
  samplers o b ref hb href := (htakes o).not_sampler ref (((htakes o).stands b hb).unique href)
  wireable name hname := by
    obtain ⟨i, hi, rfl⟩ := exists_wired_of_reaches hw htakes hname
    exact (hw.complete i hi).wireable

theorem nodesMatch_of_skeleton (h : d.Skeleton types g) : d.NodesMatch types g := by
  refine (List.forall₂_map_right_iff.1 h).imp fun e n ⟨t, ht, ho⟩ => ?_
  simp only [Node.outline, Prod.mk.injEq] at ho
  obtain ⟨hname, rfl, hinputs, -⟩ := ho
  exact ⟨hname, ht, hinputs⟩

/-- A graph that is wired from one without wires is bound as the document writes it. -/
theorem boundAsWritten_of_wired (hw : Wiring.Sound d types ⟨p.graph, wired⟩)
    (hextends : Wiring.Extends ⟨g, []⟩ d (List.range d.nodes.size) (d.Reaches written)
      (fun _ => False) ⟨p.graph, wired⟩)
    (htakes : ∀ o, TakesAsWritten d types written ⟨p.graph, wired⟩ o (p.output o))
    (hunbound : ∀ i target, g.binding? i = some target → target = .unbound) :
    d.BoundAsWritten types written p where
  nodes := nodesMatch_of_skeleton hw.skeleton
  absent o := (htakes o).absent
  written o b := (htakes o).stands b
  reached n hmem hreaches k pin hpin := by
    obtain ⟨id, hn⟩ := List.getElem?_of_mem hmem
    obtain ⟨e, hnode⟩ := hw.skeleton.isNode hn
    obtain ⟨i, hi, hname⟩ := exists_wired_of_reaches hw htakes hreaches
    have hlt : id < d.nodes.size := (List.getElem?_eq_some_iff.1 hnode.entry).1
    obtain rfl : i = id := nameAt_injective (hw.complete i hi).lt_size hlt
      (hname.trans (Document.nameAt_eq hnode.entry).symm)
    obtain ⟨b, target, hb, htarget, hstands⟩ :=
      (hw.complete i hi).bound hnode.entry hnode.type k pin hpin
    refine ⟨e, b, target, Table.get?_eq_some_iff.2 (List.mem_of_getElem? hnode.entry), hb, ?_,
      hstands⟩
    rwa [Graph.binding?, Graph.node?, hn] at htarget
  unreached n hmem hreaches target htarget := by
    obtain ⟨id, hn⟩ := List.getElem?_of_mem hmem
    obtain ⟨k, hk⟩ := List.getElem?_of_mem htarget
    obtain ⟨e, hnode⟩ := hw.skeleton.isNode hn
    have hunwired : id ∉ wired := fun hid => by
      rcases hextends.fresh id hid with hnot | ⟨-, hreaches'⟩
      · cases hnot
      · exact hreaches (Document.nameAt_eq hnode.entry ▸ hreaches')
    have hbinding : p.graph.binding? ⟨id, k⟩ = some target := by
      rw [Graph.binding?, Graph.node?, hn]
      exact hk
    rw [hextends.frame id (fun h => h) (.inr hunwired) k] at hbinding
    exact hunbound _ _ hbinding

end Wired

end PassGraph

end MaterialGraph
