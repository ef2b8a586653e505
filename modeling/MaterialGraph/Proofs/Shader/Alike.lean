import MaterialGraph.Proofs.Body.Alike
import MaterialGraph.Proofs.Shader.Library

/-!
Shaders whose passes are alike. Main statements: documents that write their passes alike
give such shaders, and such shaders compile to the same.
-/

namespace MaterialGraph

variable {resolver : Resolver} {d d' : Document} {v : Variant} {l l' : Limits}
  {r r' r₁ r₁' : Registry} {s s' : Shader} {p p' : ShaderPass} {t : NodeType} {pass : Pass}
  {material : Material} {m : Mapping} {coords : TexCoordTable}

/-- Passes that have the same usage and mapping, and whose graphs are alike. -/
structure ShaderPass.Alike (p p' : ShaderPass) : Prop where
  graph : ∃ I, p.graph.Alike I p'.graph
  usage : p.usage = p'.usage
  mapping : p.mapping = p'.mapping

theorem ShaderPass.Alike.symm (h : p.Alike p') : p'.Alike p where
  graph := h.graph.imp' _ fun _ => PassGraph.Alike.symm
  usage := h.usage.symm
  mapping := h.mapping.symm

namespace Shader

/-- Loaded shaders of one name and variant whose passes are alike. -/
structure Alike (s s' : Shader) : Prop where
  name : s.name = s'.name
  precision : s.document.precision = s'.document.precision
  samplerPrecision : s.document.samplerPrecision = s'.document.samplerPrecision
  variant : s.variant = s'.variant
  passes : List.Forall₂ ShaderPass.Alike s.passes s'.passes

end Shader

section Loading

open Document (Similar)

/-- A pass that is loaded from a document is loaded from a similar one as well. -/
theorem Document.Similar.exists_loaded (h : Similar (Registry.find resolver r) d d')
    (hsame : Registry.find resolver r' = Registry.find resolver r) {g : Option PassGraph}
    (hg : PassGraph.loaded resolver d pass r = .ok g) :
    ∃ g', PassGraph.loaded resolver d' pass r' = .ok g' ∧
      Option.Rel (fun p p' => ∃ I, PassGraph.Alike I p p') g g' := by
  have hpasses := h.passes pass
  cases hw : d.written? pass with
  | none =>
    rw [hw] at hpasses
    cases (PassGraph.loaded_of_absent hw).symm.trans hg
    exact ⟨none, PassGraph.loaded_of_absent hpasses.eq_none, .none⟩
  | some w =>
    rw [hw] at hpasses
    obtain ⟨w', hw', R, halike⟩ := hpasses.exists_of_some
    rcases PassGraph.loaded_cases resolver r hw with
      ⟨p, hp, hpass, hbound, hloadable⟩ | ⟨f, hf, -⟩
    · cases hp.symm.trans hg
      rcases PassGraph.loaded_cases resolver r' hw' with
        ⟨p', hp', hpass', hbound', -⟩ | ⟨f, -, hnot, -⟩
      · rw [hsame] at hbound'
        exact ⟨some p', hp',
          .some ⟨_, halike.passGraph hbound hbound' (hpass.trans hpass'.symm)⟩⟩
      · rw [hsame] at hnot
        exact absurd (halike.loadable hloadable) hnot
    · cases hf.symm.trans hg

theorem Document.Similar.exists_run (h : Similar (Registry.find resolver r) d d')
    (hsame : Registry.find resolver r' = Registry.find resolver r) {g : Option PassGraph}
    (hg : (PassGraph.load resolver d pass).run r = (.ok g, r₁)) :
    ∃ g' r₁', (PassGraph.load resolver d' pass).run r' = (.ok g', r₁') ∧
      Registry.find resolver r₁ = Registry.find resolver r ∧
      Registry.find resolver r₁' = Registry.find resolver r ∧
      Option.Rel (fun p p' => ∃ I, PassGraph.Alike I p p') g g' := by
  obtain ⟨g', hg', hrel⟩ := h.exists_loaded hsame (congrArg Prod.fst hg)
  have hrun : (PassGraph.load resolver d' pass).run r' = (.ok g', _) := Prod.ext hg' rfl
  exact ⟨g', _, hrun, (PassGraph.keeps_load resolver d pass).find_eq hg,
    ((PassGraph.keeps_load resolver d' pass).find_eq hrun).trans hsame, hrel⟩

namespace Shader

theorem exists_analyse {g g' : PassGraph} {I : Nat → Nat → Prop} (hname : d.name = d'.name)
    (hg : g.Alike I g') (h : analyse d v l g = .ok p) :
    ∃ p', analyse d' v l g' = .ok p' ∧ p.Alike p' := by
  obtain ⟨b, hb, heq⟩ := Except.bind_eq_ok_iff.1 h
  cases heq
  refine ⟨⟨g', g'.usage, b⟩, ?_, ⟨I, hg⟩, hg.usage_eq, rfl⟩
  rw [analyse, ← hg.usage_eq, ← hg.pass, ← hname]
  exact Except.bind_eq_ok_iff.2 ⟨b, hb, rfl⟩

/-- Passes are loaded one after the other, with the same types found for each. -/
theorem exists_loadPasses {types : String → Outcome NodeType} (h : Similar types d d')
    {passes : List Pass} {loaded : List ShaderPass} (hr : Registry.find resolver r = types)
    (hr' : Registry.find resolver r' = types)
    (hload : (loadPasses resolver d v l passes).run r = (.ok loaded, r₁)) :
    ∃ loaded' r₁', (loadPasses resolver d' v l passes).run r' = (.ok loaded', r₁') ∧
      List.Forall₂ ShaderPass.Alike loaded loaded' := by
  induction passes generalizing r r' loaded with
  | nil =>
    cases hload
    exact ⟨[], r', rfl, .nil⟩
  | cons pass rest ih =>
    subst hr
    obtain ⟨r₂, ⟨hg, hrest⟩ | ⟨g, p, others, hg, hp, hothers, rfl⟩⟩ := loadPasses_cons_eq_ok hload
    · obtain ⟨_, r₂', hg', hr₂, hr₂', hrel⟩ := h.exists_run hr' hg
      cases hrel
      rw [loadPasses, Loading.run_bind_of_ok hg']
      exact ih hr₂ hr₂' hrest
    · obtain ⟨_, r₂', hg', hr₂, hr₂', hrel⟩ := h.exists_run hr' hg
      cases hrel with
      | @some _ g' hgraph =>
        obtain ⟨I, hgraph⟩ := hgraph
        obtain ⟨p', hp', halike⟩ := exists_analyse h.name hgraph hp
        obtain ⟨others', r₃', hothers', halikes⟩ := ih hr₂ hr₂' hothers
        refine ⟨p' :: others', r₃', ?_, .cons halike halikes⟩
        rw [loadPasses, Loading.run_bind_of_ok hg']
        simp only [hp']
        exact (Loading.run_bind_of_ok rfl).trans (Loading.run_bind_of_ok hothers')

/-- A shader that is loaded from a document is loaded from a similar one as well. -/
theorem exists_load (h : Similar (Registry.find resolver r) d d')
    (hsame : Registry.find resolver r' = Registry.find resolver r)
    (hload : (load resolver l d v).run r = (.ok s, r₁)) :
    ∃ s' r₁', (load resolver l d' v).run r' = (.ok s', r₁') ∧ s.Alike s' := by
  obtain ⟨passes, r₂, hpasses, hresult⟩ := Loading.run_bind_eq_ok hload
  obtain ⟨passes', r₂', hpasses', halike⟩ := exists_loadPasses h rfl hsame hpasses
  have hvariant : resolveVariant d v = resolveVariant d' v := by
    rw [resolveVariant, resolveVariant, h.skinMode]
  have hempty : passes.isEmpty = passes'.isEmpty := by
    cases halike with
    | nil => rfl
    | cons _ _ => rfl
  rw [hvariant] at hpasses'
  rw [load, Loading.run_bind_of_ok hpasses', ← hempty]
  split at hresult
  · cases hresult
  · next hnot =>
    cases hresult
    rw [if_neg hnot]
    exact ⟨_, r₂', rfl, h.name, h.precision, h.samplerPrecision, hvariant, halike⟩

end Shader

end Loading

namespace Shader

namespace Alike

theorem symm (h : s.Alike s') : s'.Alike s where
  name := h.name.symm
  precision := h.precision.symm
  samplerPrecision := h.samplerPrecision.symm
  variant := h.variant.symm
  passes := h.passes.flip.imp fun _ _ => ShaderPass.Alike.symm

variable (h : s.Alike s')
include h

theorem pass? (pass : Pass) : Option.Rel ShaderPass.Alike (s.pass? pass) (s'.pass? pass) := by
  have hpasses := h.passes
  unfold Shader.pass?
  generalize s.passes = passes, s'.passes = passes' at hpasses ⊢
  induction hpasses with
  | nil => exact .none
  | @cons p p' _ _ hp _ ih =>
    obtain ⟨I, hgraph⟩ := hp.graph
    rw [List.find?_cons, List.find?_cons, hgraph.pass]
    split
    · exact .some hp
    · exact ih

theorem outputs_eq (pass : Pass) : s.outputs pass = s'.outputs pass := by
  have hpass := h.pass? pass
  unfold outputs
  generalize s.pass? pass = p?, s'.pass? pass = p?' at hpass ⊢
  cases hpass with
  | none => rfl
  | some hp =>
    obtain ⟨I, hgraph⟩ := hp.graph
    exact hgraph.outputs_eq

/-- What agrees on alike passes agrees on what the shaders have for a pass. -/
theorem map_pass?_eq {α : Type} {f : ShaderPass → α} (hf : ∀ p p', p.Alike p' → f p = f p')
    (pass : Pass) : (s.pass? pass).map f = (s'.pass? pass).map f := by
  have hpass := h.pass? pass
  generalize s.pass? pass = p?, s'.pass? pass = p?' at hpass ⊢
  cases hpass with
  | none => rfl
  | some hp => exact congrArg some (hf _ _ hp)

/-- A pass is required with the same failure, or alike passes are found. -/
theorem requirePass_cases (pass : Pass) :
    (∃ f, s.requirePass pass = .error f ∧ s'.requirePass pass = .error f) ∨
      ∃ p ∈ s.passes, ∃ p' ∈ s'.passes, s.requirePass pass = .ok p ∧
        s'.requirePass pass = .ok p' ∧ p.Alike p' := by
  have hpass := h.pass? pass
  cases hp : s.pass? pass with
  | none =>
    rw [hp] at hpass
    refine .inl ⟨.fault (.noSuchPass s.name pass), ?_, ?_⟩
    · rw [requirePass, hp]
      rfl
    · rw [requirePass, hpass.eq_none, h.name]
      rfl
  | some p =>
    rw [hp] at hpass
    obtain ⟨p', hp', halike⟩ := hpass.exists_of_some
    exact .inr ⟨p, mem_of_pass? hp, p', mem_of_pass? hp', requirePass_of_pass? hp,
      requirePass_of_pass? hp', halike⟩

theorem mappings_eq (material : Material) (pass : Pass) (l : Limits) :
    s.mappings material pass l = s'.mappings material pass l := by
  unfold mappings
  rcases h.requirePass_cases pass with ⟨f, hf, hf'⟩ | ⟨p, -, p', -, hp, hp', halike⟩
  · rw [hf, hf']
    rfl
  · rw [hp, hp', h.name]
    simp only [bind, Except.bind, halike.usage, halike.mapping]

theorem uses (hs : ∀ p ∈ s.passes, p.Analysed v l) (hs' : ∀ p ∈ s'.passes, p.Analysed v l)
    (ht : s.Uses t) : s'.Uses t := by
  obtain ⟨p, hp, id, n, hlive, hn, rfl⟩ := ht
  obtain ⟨p', hp', halike⟩ := h.passes.exists_mem p hp
  obtain ⟨I, hgraph⟩ := halike.graph
  obtain ⟨id', hlive', hid⟩ :=
    hgraph.exists_live (hs p hp).sound.toLinked (hs' p' hp').sound.toLinked hlive
  obtain ⟨m, n', hm, hn', hnode⟩ := hgraph.graph.nodes id id' hid
  cases hn.symm.trans hm
  exact ⟨p', hp', id', n', hlive', hn', hnode.type.symm⟩

end Alike

/-- Alike passes that are mapped have the same body or the same failure. -/
theorem ofPass_eq (hp : p.Analysed v l) (hp' : p'.Analysed v l) (h : p.Alike p')
    (hfull : p.mapping.full p.usage material l' = .ok (m, coords)) :
    Body.ofPass p.graph (Accessors.text ⟨p.usage, m, coords⟩) =
      Body.ofPass p'.graph (Accessors.text ⟨p'.usage, m, coords⟩) := by
  obtain ⟨I, hgraph⟩ := h.graph
  have hbase := hp.mapping
  rw [← h.usage]
  have hbase' := hp'.mapping
  rw [hp.usage] at hbase hfull ⊢
  rw [hp'.usage, ← hgraph.usage_eq] at hbase'
  cases hbody : Body.ofPass p.graph (Accessors.text ⟨p.graph.usage, m, coords⟩) with
  | ok body => exact (Body.ofPass_of_alike hgraph hbody).symm
  | error f =>
    cases hbody' : Body.ofPass p'.graph (Accessors.text ⟨p.graph.usage, m, coords⟩) with
    | ok body => cases (Body.ofPass_of_alike hgraph.symm hbody').symm.trans hbody
    | error f' =>
      -- Emission itself may name nodes when it fails, but here it is a sprite skin that failed.
      have hf := Body.eq_of_ofPass_error hp.sound hbase hfull hbody
      rw [h.mapping] at hfull
      rw [hgraph.usage_eq] at hbase' hfull hbody'
      rw [hf, Body.eq_of_ofPass_error hp'.sound hbase' hfull hbody']

/-- Alike shaders that were loaded have the same bodies and the same failures to have one. -/
theorem Alike.body_eq (h : s.Alike s') (hs : ∀ p ∈ s.passes, p.Analysed v l)
    (hs' : ∀ p ∈ s'.passes, p.Analysed v l) (material : Material) (pass : Pass) (l' : Limits) :
    s.body material pass l' = s'.body material pass l' := by
  unfold body
  rcases h.requirePass_cases pass with ⟨f, hf, hf'⟩ | ⟨p, hmem, p', hmem', hp, hp', halike⟩
  · rw [hf, hf']
    rfl
  · rw [← h.mappings_eq, hp, hp', h.name]
    cases hm : s.mappings material pass l' with
    | error f => rfl
    | ok mt =>
      obtain ⟨m, t⟩ := mt
      have hfull := mappings_eq_ok (pass?_of_requirePass hp) hm
      have hbody := ofPass_eq (hs p hmem) (hs' p' hmem') halike hfull
      simp only [bind, Except.bind]
      rw [hbody]

/-- The passes of alike shaders need the same types. -/
theorem Alike.types_eq (h : s.Alike s') (hr : r.Built) (hr' : r'.Built)
    (hs : (load resolver l d v).run r = (.ok s, r₁))
    (hs' : (load resolver l d' v).run r' = (.ok s', r₁')) : s.types = s'.types := by
  have hanalysed := analysed_of_load hs
  have hanalysed' := analysed_of_load hs'
  rw [← h.variant] at hanalysed'
  refine Table.ext_get? fun name => Option.ext fun t => ?_
  rw [get?_types_iff hr hs, get?_types_iff hr' hs']
  exact and_congr_left fun _ => ⟨h.uses hanalysed hanalysed', h.symm.uses hanalysed' hanalysed⟩

end Shader

theorem Action.ofOutcome_ok_bind {σ α β : Type} (a : α) (k : α → Action σ β) :
    (ofOutcome (.ok a) >>= k) = k a :=
  rfl

theorem Action.ofOutcome_error_bind {σ α β : Type} (f : Failure) (k : α → Action σ β) :
    (ofOutcome (.error f) >>= k) = ofOutcome (.error f) :=
  rfl

namespace Compiler

variable {σ : Type} {c : Compiler σ}

theorem plan_eq (h : s.Alike s') (hp : p.Alike p') (material : Material) (m : Mapping)
    (text : String) (stage : Stage) :
    plan s p material m text stage = plan s' p' material m text stage := by
  obtain ⟨I, hgraph⟩ := hp.graph
  have hprecision : s.document.precisionOfTexture = s'.document.precisionOfTexture := by
    funext index
    rw [Document.precisionOfTexture, Document.precisionOfTexture, h.precision, h.samplerPrecision]
  rw [plan, plan, h.name, h.precision, h.variant, hprecision, hgraph.pass, hp.usage]

/-- Where functions and bodies are the same, so are the texts of a pass. -/
theorem compilePass_eq (h : s.Alike s') (htypes : s.types = s'.types)
    (hbody : ∀ material pass l, s.body material pass l = s'.body material pass l)
    (pass : Pass) (material : Material) :
    c.compilePass s pass material = c.compilePass s' pass material := by
  unfold compilePass
  rcases h.requirePass_cases pass with ⟨f, hf, hf'⟩ | ⟨p, -, p', -, hp, hp', halike⟩
  · rw [hf, hf', Action.ofOutcome_error_bind, Action.ofOutcome_error_bind]
  · obtain ⟨I, hgraph⟩ := halike.graph
    have hlibrary : s.library = s'.library := by
      funext texts
      rw [Shader.library, Shader.library, htypes]
    rw [hp, hp', Action.ofOutcome_ok_bind, Action.ofOutcome_ok_bind, h.mappings_eq, hbody,
      hlibrary, hgraph.outputs_eq]
    simp only [plan_eq h halike]

/-- The same passes are cooked, from the same texts. -/
theorem cook_eq (h : s.Alike s') (htypes : s.types = s'.types)
    (hbody : ∀ material pass l, s.body material pass l = s'.body material pass l)
    (material : Material) : c.cook s material = c.cook s' material := by
  have hpasses : (s.passes.map fun p => p.graph.pass) = s'.passes.map fun p => p.graph.pass := by
    refine List.forall₂_eq_eq_eq ▸ List.rel_map (fun p p' hp => ?_) h.passes
    obtain ⟨I, hgraph⟩ := hp.graph
    exact hgraph.pass
  have hcook : c.cookPass s material = c.cookPass s' material := by
    funext pass
    rw [cookPass, cookPass, compilePass_eq h htypes hbody]
  rw [cook, cook, hpasses, hcook]

end Compiler

end MaterialGraph
