import Mathlib.Logic.Equiv.Basic
import MaterialGraph.Proofs.Document.Renaming
import MaterialGraph.Proofs.Shader.Alike

/-!
Names of nodes and nodes that no pass reaches have no influence on what is compiled.
Main statement: of two documents that differ in nothing else, each pass loads from both
or from neither, and what is made of it is the same.
-/

namespace MaterialGraph

/-- Pass graphs from which the same is made. The usage includes the types under which
textures are sampled. -/
structure PassGraph.Equivalent (p p' : PassGraph) : Prop where
  pass : p.pass = p'.pass
  outputs : p.outputs = p'.outputs
  usage : p.usage = p'.usage
  base : ∀ v l, Mapping.base p.usage p.pass v l = Mapping.base p'.usage p'.pass v l
  full : ∀ b material l, Mapping.full b p.usage material l = Mapping.full b p'.usage material l
  body : ∀ access body, Body.ofPass p access = .ok body ↔ Body.ofPass p' access = .ok body

theorem PassGraph.Alike.equivalent {I : Nat → Nat → Prop} {p p' : PassGraph}
    (h : p.Alike I p') : p.Equivalent p' where
  pass := h.pass
  outputs := h.outputs_eq
  usage := h.usage_eq
  base v l := by rw [h.usage_eq, h.pass]
  full b material l := by rw [h.usage_eq]
  body access body := ⟨Body.ofPass_of_alike h, Body.ofPass_of_alike h.symm⟩

namespace Shader

variable {resolver : Resolver} {d d' : Document} {v : Variant} {l : Limits}
  {r r' r₁ r₁' : Registry} {s s' : Shader} {f : String → String}

/-- Shaders that tell the same of every pass and compile to the same texts and bytes. -/
structure Equivalent (s s' : Shader) : Prop where
  outputs : ∀ pass, s.outputs pass = s'.outputs pass
  usage : ∀ pass, (s.pass? pass).map ShaderPass.usage = (s'.pass? pass).map ShaderPass.usage
  base : ∀ pass, (s.pass? pass).map ShaderPass.mapping = (s'.pass? pass).map ShaderPass.mapping
  mappings : ∀ material pass l, s.mappings material pass l = s'.mappings material pass l
  body : ∀ material pass l, s.body material pass l = s'.body material pass l
  library : ∀ texts, s.library texts = s'.library texts
  compilePass : ∀ {σ : Type} (c : Compiler σ) pass material,
    c.compilePass s pass material = c.compilePass s' pass material
  cook : ∀ {σ : Type} (c : Compiler σ) material, c.cook s material = c.cook s' material

theorem Alike.equivalent (h : s.Alike s') (hr : r.Built) (hr' : r'.Built)
    (hs : (load resolver l d v).run r = (.ok s, r₁))
    (hs' : (load resolver l d' v).run r' = (.ok s', r₁')) : s.Equivalent s' := by
  have hanalysed := analysed_of_load hs
  have hanalysed' := analysed_of_load hs'
  rw [← h.variant] at hanalysed'
  have htypes := h.types_eq hr hr' hs hs'
  have hbody := h.body_eq hanalysed hanalysed'
  exact {
    outputs := h.outputs_eq
    usage := h.map_pass?_eq fun _ _ hp => hp.usage
    base := h.map_pass?_eq fun _ _ hp => hp.mapping
    mappings := h.mappings_eq
    body := hbody
    library := fun texts => by rw [library, library, htypes]
    compilePass := fun c => Compiler.compilePass_eq h htypes hbody
    cook := fun c => Compiler.cook_eq h htypes hbody }

/-- Renaming nodes and adding or removing spare ones changes nothing: a pass, and the
shader as a whole, is loaded from both documents or from neither, and what is loaded is
equivalent. -/
theorem equivalent_of_renames (hr : r.Built) (hr' : r'.Built)
    (hsame : Registry.find resolver r' = Registry.find resolver r)
    (h : Document.Renames (Registry.find resolver r) f d d') :
    (∀ pass, ((∃ g, PassGraph.loaded resolver d pass r = .ok g) ↔
        ∃ g, PassGraph.loaded resolver d' pass r' = .ok g) ∧
      ∀ g g', PassGraph.loaded resolver d pass r = .ok g →
        PassGraph.loaded resolver d' pass r' = .ok g' →
          Option.Rel PassGraph.Equivalent g g') ∧
    ∀ l v, ((∃ s r₁, (load resolver l d v).run r = (.ok s, r₁)) ↔
        ∃ s r₁, (load resolver l d' v).run r' = (.ok s, r₁)) ∧
      ∀ s s' r₁ r₁', (load resolver l d v).run r = (.ok s, r₁) →
        (load resolver l d' v).run r' = (.ok s', r₁') → s.Equivalent s' := by
  have hsimilar := h.similar
  have hsimilar' : Document.Similar (Registry.find resolver r') d' d := hsame ▸ hsimilar.symm
  refine ⟨fun pass => ⟨⟨?_, ?_⟩, fun g g' hg hg' => ?_⟩, fun l v => ⟨⟨?_, ?_⟩, ?_⟩⟩
  · rintro ⟨g, hg⟩
    obtain ⟨g', hg', -⟩ := hsimilar.exists_loaded hsame hg
    exact ⟨g', hg'⟩
  · rintro ⟨g', hg'⟩
    obtain ⟨g, hg, -⟩ := hsimilar'.exists_loaded hsame.symm hg'
    exact ⟨g, hg⟩
  · obtain ⟨g'', hg'', hrel⟩ := hsimilar.exists_loaded hsame hg
    cases hg'.symm.trans hg''
    cases hrel with
    | none => exact .none
    | some hgraph =>
      obtain ⟨I, hgraph⟩ := hgraph
      exact .some hgraph.equivalent
  · rintro ⟨s, r₁, hs⟩
    obtain ⟨s', r₁', hs', -⟩ := exists_load hsimilar hsame hs
    exact ⟨s', r₁', hs'⟩
  · rintro ⟨s', r₁', hs'⟩
    obtain ⟨s, r₁, hs, -⟩ := exists_load hsimilar' hsame.symm hs'
    exact ⟨s, r₁, hs⟩
  · intro s s' r₁ r₁' hs hs'
    obtain ⟨s'', r₂, hs'', halike⟩ := exists_load hsimilar hsame hs
    cases hs'.symm.trans hs''
    exact halike.equivalent hr hr' hs hs'

/-- A document of a node that reads a color, and of one that reads nothing but itself. -/
def worn : Document where
  name := "dyed"
  nodes := (Table.empty.insert "loop" ⟨"Tint", Table.empty.insert "c" { node := some "loop" }⟩).insert
    "paint" ⟨"Tint", Table.empty.insert "c" { source := some "color" }⟩
  passes := Table.empty.insert "Fullbright" { color := some { node := some "paint" } }

theorem worn_get? {x : String} {n : Document.WrittenNode} (h : worn.nodes.get? x = some n) :
    x = "loop" ∧ n = ⟨"Tint", Table.empty.insert "c" { node := some "loop" }⟩ ∨
      x = "paint" ∧ n = ⟨"Tint", Table.empty.insert "c" { source := some "color" }⟩ := by
  have hmem := Table.get?_eq_some_iff.1 h
  change (x, n) ∈ [_, _] at hmem
  rcases List.mem_cons.1 hmem with heq | hmem
  · exact .inl (Prod.mk.inj heq)
  · exact .inr (Prod.mk.inj (List.mem_singleton.1 hmem))

theorem pass?_worn {pass : Pass} {w : Document.WrittenPass} (h : worn.pass? pass = some w) :
    w = { color := some { node := some "paint" } } := by
  have hget (name : String) (hname : worn.passes.get? name = some w) :
      w = { color := some { node := some "paint" } } := by
    have hmem := Table.get?_eq_some_iff.1 hname
    change (name, w) ∈ [_] at hmem
    exact (Prod.mk.inj (List.mem_singleton.1 hmem)).2
  unfold Document.pass? at h
  split at h
  · next _ hname => exact hget _ (hname.trans h)
  · split at h
    · exact hget _ h
    · cases h

theorem spare_worn : worn.Spare (Registry.find (ResourceTable.resolver {}) PassGraph.tintTypes)
    "loop" := by
  intro n hn
  refine ⟨?_, fun pass w hw => Document.not_reaches (fun o b ho => ?_) fun y hy => ?_⟩
  · rcases worn_get? hn with ⟨-, rfl⟩ | ⟨-, rfl⟩ <;> exact ⟨_, rfl⟩
  · obtain rfl := pass?_worn hw
    rintro ⟨output, hb⟩
    cases o <;> cases ho
    have hname : "paint" = "loop" := (Document.Target.node.inj (Except.ok.inj hb)).1
    exact absurd hname (by decide)
  · obtain ⟨m, hm, e, he, output, hb⟩ := hy
    rcases worn_get? hm with ⟨rfl, -⟩ | ⟨-, rfl⟩
    · rfl
    · change e ∈ [_] at he
      obtain rfl := List.mem_singleton.1 he
      cases hb

theorem renames_worn :
    Document.Renames (Registry.find (ResourceTable.resolver {}) PassGraph.tintTypes)
      (Equiv.swap "paint" "tint") worn dyed where
  name := rfl
  skinMode := rfl
  precision := rfl
  samplerPrecision := rfl
  passes := rfl
  injective := (Equiv.injective _).injOn
  kept x n hn := by
    rcases worn_get? hn with ⟨rfl, -⟩ | ⟨rfl, rfl⟩
    · refine .inr ⟨spare_worn, fun m hm => ?_⟩
      cases hm
    · exact .inl rfl
  added y hy := by
    obtain ⟨n, hn⟩ := Table.contains_iff.1 hy
    change (y, n) ∈ [_] at hn
    cases List.mem_singleton.1 hn
    exact .inl ⟨"paint", rfl, rfl⟩

/-- The renamed document without the spare node is loaded, so this one is, too. -/
theorem equivalent_of_renames_worn : PassGraph.tintTypes.Built ∧
    ∃ s, (∃ r₁, (load (ResourceTable.resolver {}) {} worn {}).run PassGraph.tintTypes = (.ok s, r₁)) ∧
      s.Equivalent dyedShader := by
  have hbuilt : PassGraph.tintTypes.Built := .put .empty PassGraph.tintType
  obtain ⟨-, hshader⟩ := equivalent_of_renames hbuilt hbuilt rfl renames_worn
  obtain ⟨hloads, hequivalent⟩ := hshader {} {}
  obtain ⟨s, r₁, hs⟩ := hloads.2 ⟨_, _, load_dyed⟩
  exact ⟨hbuilt, s, ⟨r₁, hs⟩, hequivalent _ _ _ _ hs load_dyed⟩

end Shader

end MaterialGraph
