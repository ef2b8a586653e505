import MaterialGraph.Proofs.Body.Loaded
import MaterialGraph.Proofs.Mapping.Preview

/-!
Previews that fall back to the default pass. A pass shows in the failures of its
bindings and in the sprite skin of its mapping, and nowhere else; so passes for which
a document writes the same have the same graph. Main statement: such a preview has the
graph of the default pass, its slots but the sprite skin, its registers and its body.
-/

namespace MaterialGraph

open Document (WrittenBinding WrittenNode WrittenPass)

namespace PassGraph

variable {d : Document} {pass : Pass} {written : WrittenPass} {g : Graph} {w : Wiring}
  {resolver : Resolver} {r r' : Registry}

/-- The same graph and outputs for another pass. -/
def forPass (p : PassGraph) (pass : Pass) : PassGraph :=
  { p with pass := pass }

section Sites

theorem namedOutput_of_site {site name output : String} {ref : OutputRef} (site' : String)
    (h : namedOutput g site name output = .ok ref) :
    namedOutput g site' name output = .ok ref := by
  unfold namedOutput at h ⊢
  cases hfind : g.find? name with
  | none =>
    rw [hfind] at h
    cases h
  | some id =>
    rw [hfind] at h
    exact h

/-- The site of a binding shows in failures only. -/
theorem wireBinding_of_site {nodes : List WrittenNode} {available : List Nat} {site : String}
    {b : WrittenBinding} {result : Binding × Wiring} (site' : String)
    (h : wireBinding nodes available site b w = .ok result) :
    wireBinding nodes available site' b w = .ok result := by
  rw [wireBinding] at h ⊢
  cases hclassify : classify site b with
  | error f =>
    rw [hclassify] at h
    cases h
  | ok target =>
    have hclassify' : classify site' b = .ok target :=
      Except.mapError_eq_ok_iff.2 (classify_eq_ok hclassify)
    rw [hclassify] at h
    rw [hclassify']
    cases target with
    | leaf l => exact h
    | node name output =>
      cases hnamed : namedOutput w.graph site name output with
      | error e =>
        simp only [hnamed] at h
        cases h
      | ok ref =>
        simp only [hnamed] at h
        simp only [namedOutput_of_site site' hnamed]
        exact h

theorem wireOutput_of_pass {o : Output} {result : Binding × Wiring} (pass' : Pass)
    (h : wireOutput d pass written o w = .ok result) :
    wireOutput d pass' written o w = .ok result := by
  cases hb : written.output? o with
  | none =>
    rw [wireOutput_none hb] at h ⊢
    exact h
  | some b =>
    rw [wireOutput_some hb] at h ⊢
    cases hwire : wireBinding d.nodes.values w.graph.ids (pass.name ++ "." ++ o.key) b w with
    | error f =>
      rw [hwire] at h
      cases h
    | ok wired =>
      rw [hwire] at h
      rw [wireBinding_of_site (pass'.name ++ "." ++ o.key) hwire]
      by_cases hsampler : isSampler wired.2.graph wired.1
      · simp only [hsampler, if_true] at h
        cases h
      · simp only [hsampler] at h ⊢
        exact h

theorem wireOutputs_of_pass {p : PassGraph} (pass' : Pass)
    (h : wireOutputs d pass written g = .ok p) :
    wireOutputs d pass' written g = .ok (p.forPass pass') := by
  simp only [wireOutputs, Except.bind_eq_ok_iff, Except.ok.injEq] at h ⊢
  obtain ⟨color, hcolor, alpha, halpha, depth, hdepth, rfl⟩ := h
  exact ⟨color, wireOutput_of_pass pass' hcolor, alpha, wireOutput_of_pass pass' halpha, depth,
    wireOutput_of_pass pass' hdepth, rfl⟩

end Sites

theorem InstancesOf.unique {types : String → Outcome NodeType}
    {entries : List (String × WrittenNode)} {nodes nodes' : List Node}
    (h : InstancesOf types entries nodes) (h' : InstancesOf types entries nodes') :
    nodes = nodes' := by
  refine Relator.RightUnique.forall₂ (fun e n n' hn hn' => ?_) h h'
  obtain ⟨t, ht, rfl⟩ := hn
  obtain ⟨t', ht', rfl⟩ := hn'
  cases ht.symm.trans ht'
  rfl

/-- A graph that was loaded is wired from the instances of the document's nodes. -/
theorem instances_of_loaded {p : Option PassGraph} (h : d.written? pass = some written)
    (hp : loaded resolver d pass r = .ok p) :
    ∃ nodes q, InstancesOf (Registry.find resolver r) d.nodes.entries nodes ∧
      wireOutputs d pass written ⟨nodes⟩ = .ok q ∧ p = some q := by
  rcases run_instantiate resolver d.name d.nodes.entries .empty r with
    ⟨nodes, r₁, hrun, hnodes⟩ | ⟨f, r₁, hrun, -⟩
  · rw [loaded_of_instances h (g := ⟨nodes⟩) hrun] at hp
    cases hwire : wireOutputs d pass written ⟨nodes⟩ with
    | error f =>
      rw [hwire] at hp
      cases hp
    | ok q =>
      rw [hwire] at hp
      cases hp
      exact ⟨nodes, q, hnodes, hwire, rfl⟩
  · rw [loaded_of_error h hrun] at hp
    cases hp

theorem loaded_of_wireOutputs {nodes : List Node} {q : PassGraph}
    (h : d.written? pass = some written)
    (hnodes : InstancesOf (Registry.find resolver r) d.nodes.entries nodes)
    (hwire : wireOutputs d pass written ⟨nodes⟩ = .ok q) :
    loaded resolver d pass r = .ok (some q) := by
  rcases run_instantiate resolver d.name d.nodes.entries .empty r with
    ⟨nodes', r₁, hrun, hnodes'⟩ | ⟨f, r₁, -, e, he, f', hfind, -⟩
  · obtain rfl := hnodes.unique hnodes'
    rw [loaded_of_instances h (g := ⟨nodes⟩) hrun, hwire]
    rfl
  · obtain ⟨t, ht⟩ := known_of_instances hnodes e he
    cases ht.symm.trans hfind

/-- Passes for which a document writes the same have the same graph, whatever types a
registry was filled with in between. -/
theorem loaded_of_pass {pass' : Pass} {p : Option PassGraph}
    (hr : Registry.find resolver r' = Registry.find resolver r)
    (hwritten : d.written? pass' = d.written? pass) (h : loaded resolver d pass r = .ok p) :
    loaded resolver d pass' r' = .ok (p.map (·.forPass pass')) := by
  cases hsome : d.written? pass with
  | none =>
    rw [loaded_of_absent hsome] at h
    cases h
    exact loaded_of_absent (hwritten.trans hsome)
  | some written =>
    obtain ⟨nodes, q, hnodes, hwire, rfl⟩ := instances_of_loaded hsome h
    rw [← hr] at hnodes
    exact loaded_of_wireOutputs (hwritten.trans hsome) hnodes (wireOutputs_of_pass pass' hwire)

/-- Without a description of its own, the preview is written as the default pass is. -/
theorem written?_preview (hdefault : d.passes.contains Pass.default.name)
    (hpreview : ¬d.passes.contains Pass.preview.name) :
    d.written? .preview = d.written? .default := by
  obtain ⟨written, hwritten⟩ := Option.isSome_iff_exists.1 hdefault
  have hnone : d.passes.get? Pass.preview.name = none := by
    simpa [Table.contains] using hpreview
  simp only [Document.written?, Document.pass?, hnone, hwritten, if_true]

end PassGraph

namespace Body

open PassGraph

variable {d : Document} {r r' : Registry}

/-- A preview without a description of its own has the graph of the default pass if that
has one. Where the default pass is mapped, the preview is mapped to the same slots and
registers but the sprite skin, and its body is the same. -/
theorem preview_of_default (hdefault : d.passes.contains Pass.default.name)
    (hpreview : ¬d.passes.contains Pass.preview.name) (resolver : Resolver) (v : Variant)
    (material : Material) (l : Limits)
    (hr : Registry.find resolver r' = Registry.find resolver r) :
    (loaded resolver d .preview r' = .ok none ↔ loaded resolver d .default r = .ok none) ∧
      (∀ p, loaded resolver d .preview r' = .ok (some p) ↔
        ∃ q, loaded resolver d .default r = .ok (some q) ∧ p = q.forPass .preview) ∧
      ∀ q b m t, loaded resolver d .default r = .ok (some q) →
        Mapping.base q.usage .default v l = .ok b → b.full q.usage material l = .ok (m, t) →
        ∃ p, loaded resolver d .preview r' = .ok (some p) ∧
          Mapping.base p.usage .preview v l = .ok (b.without .spriteSkin) ∧
          (b.without .spriteSkin).full p.usage material l = .ok (m.without .spriteSkin, t) ∧
          ofPass p (Accessors.mk p.usage (m.without .spriteSkin) t).text =
            ofPass q (Accessors.mk q.usage m t).text := by
  have hwritten := written?_preview hdefault hpreview
  have hload {p : Option PassGraph} (h : loaded resolver d .default r = .ok p) :
      loaded resolver d .preview r' = .ok (p.map (·.forPass .preview)) :=
    loaded_of_pass hr hwritten h
  have hback {p : Option PassGraph} (h : loaded resolver d .preview r' = .ok p) :
      loaded resolver d .default r = .ok (p.map (·.forPass .default)) :=
    loaded_of_pass hr.symm hwritten.symm h
  refine ⟨⟨hback, hload⟩, fun p => ⟨fun h => ?_, ?_⟩, fun q b m t h hbase hfull => ?_⟩
  · have hdefault := hback h
    refine ⟨_, hdefault, ?_⟩
    exact Option.some.inj (Except.ok.inj (h.symm.trans (hload hdefault)))
  · rintro ⟨q, h, rfl⟩
    exact hload h
  · refine ⟨_, hload h, Mapping.base_preview hbase, Mapping.full_without (by decide) hfull, ?_⟩
    rw [Accessors.text_without]
    rfl

/-- A document whose color comes from a node that reads coordinates. -/
def tiled : Document where
  name := "tiled"
  nodes := Table.empty.insert "tint"
    ⟨"Tint", Table.empty.insert "c" { source := some "tex_coord", index := some 3 }⟩
  passes := Table.empty.insert "Default" tintPass

def tiledPass : PassGraph where
  pass := .default
  graph := tintGraph ⟨.texCoord, 3⟩
  color := .output ⟨0, 0⟩

theorem tiled_loaded :
    loaded (ResourceTable.resolver {}) tiled .default tintTypes = .ok (some tiledPass) := by
  have hleaf : WrittenBinding.classify { source := some "tex_coord", index := some 3 } =
      .ok (.leaf ⟨.texCoord, 3⟩) := rfl
  exact congrArg Prod.fst (run_load_tint hleaf (d := tiled) rfl rfl)

theorem tiled_usage : tiledPass.usage = .ofLeaves [⟨.texCoord, 3⟩] := by
  have hvisits : tiledPass.visits = [0] := visits_tint .default ⟨.texCoord, 3⟩
  unfold PassGraph.usage PassGraph.inputLeaves
  rw [hvisits]
  rfl

/-- In the preview of a skinned material the channel takes the slot of the skin. -/
theorem preview_of_default_tiled :
    tiled.passes.contains Pass.default.name ∧ ¬tiled.passes.contains Pass.preview.name ∧
      ∃ b m t p, Mapping.base tiledPass.usage .default ⟨.sprite, false⟩ {} = .ok b ∧
        b.full tiledPass.usage {} {} = .ok (m, t) ∧
        m.attributes = [⟨.vertices, 0⟩, ⟨.spriteSkin, 0⟩, ⟨.texCoords, 0⟩] ∧
        loaded (ResourceTable.resolver {}) tiled .preview tintTypes = .ok (some p) ∧
        p = tiledPass.forPass .preview ∧
        (b.without .spriteSkin).full p.usage {} {} = .ok (m.without .spriteSkin, t) ∧
        (m.without .spriteSkin).attributes = [⟨.vertices, 0⟩, ⟨.texCoords, 0⟩] ∧
        ofPass p (Accessors.mk p.usage (m.without .spriteSkin) t).text =
          ofPass tiledPass (Accessors.mk tiledPass.usage m t).text := by
  have hdefault : tiled.passes.contains Pass.default.name := by decide
  have hpreview : ¬tiled.passes.contains Pass.preview.name := by decide
  have hr : Registry.find (ResourceTable.resolver {}) tintTypes =
      Registry.find (ResourceTable.resolver {}) tintTypes := rfl
  obtain ⟨b, hbase⟩ : ∃ b, Mapping.base tiledPass.usage .default ⟨.sprite, false⟩ {} = .ok b := by
    rw [tiled_usage]
    exact ⟨_, rfl⟩
  obtain ⟨m, t, hfull, hattributes⟩ : ∃ m t, b.full tiledPass.usage {} {} = .ok (m, t) ∧
      m.attributes = [⟨.vertices, 0⟩, ⟨.spriteSkin, 0⟩, ⟨.texCoords, 0⟩] := by
    rw [tiled_usage] at hbase ⊢
    cases hbase
    exact ⟨_, _, rfl, rfl⟩
  obtain ⟨-, hsame, hmapped⟩ := preview_of_default hdefault hpreview (ResourceTable.resolver {})
    ⟨.sprite, false⟩ {} {} hr
  obtain ⟨p, hp, -, hpreviewed, hbody⟩ := hmapped tiledPass b m t tiled_loaded hbase hfull
  obtain ⟨q, hq, rfl⟩ := (hsame p).1 hp
  cases tiled_loaded.symm.trans hq
  refine ⟨hdefault, hpreview, b, m, t, _, hbase, hfull, hattributes, hp, rfl, hpreviewed, ?_,
    hbody⟩
  rw [Mapping.without, hattributes]
  rfl

end Body

end MaterialGraph
