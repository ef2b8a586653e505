import Mathlib.Data.List.ReduceOption
import MaterialGraph.Proofs.Body.Loaded
import MaterialGraph.Proofs.Loading
import MaterialGraph.Shader.Compile

/-!
Shaders that were loaded. Every pass of such a shader has the usage of its graph
and the mapping of that usage, and the graph is a sound one.
-/

namespace MaterialGraph

/-- Whether a pass is what loading makes of its graph for a variant within limits. -/
structure ShaderPass.Analysed (p : ShaderPass) (v : Variant) (l : Limits) : Prop where
  sound : p.graph.Sound
  usage : p.usage = p.graph.usage
  mapping : Mapping.base p.usage p.graph.pass v l = .ok p.mapping

namespace Shader

variable {resolver : Resolver} {d : Document} {v : Variant} {l : Limits} {r r' : Registry}
  {s : Shader} {p : ShaderPass} {pass : Pass} {material : Material} {m : Mapping}
  {t : TexCoordTable}

theorem analysed_of_analyse {g : PassGraph} (hg : g.Sound) (h : analyse d v l g = .ok p) :
    p.Analysed v l := by
  simp only [analyse] at h
  cases hbase : Outcome.during (passActivity d.name g.pass)
      ((Mapping.base g.usage g.pass v l).mapError Failure.compile) with
  | error f =>
    rw [hbase] at h
    cases h
  | ok b =>
    rw [hbase] at h
    cases h
    exact ⟨hg, rfl, Except.mapError_eq_ok_iff.1 (Outcome.during_eq_ok_iff.1 hbase)⟩

/-- Passes that write no output leave no trace. -/
theorem run_loadPasses_append {passes : List Pass} (rest : List Pass)
    (h : ∀ pass ∈ passes, d.written? pass = none) :
    (loadPasses resolver d v l (passes ++ rest)).run r =
      (loadPasses resolver d v l rest).run r := by
  induction passes with
  | nil => rfl
  | cons pass passes ih =>
    have hload : (PassGraph.load resolver d pass).run r = (.ok none, r) :=
      PassGraph.run_load_of_absent (h pass List.mem_cons_self)
    rw [List.cons_append, loadPasses, Loading.run_bind_of_ok hload]
    exact ih fun other hother => h other (List.mem_cons_of_mem _ hother)

theorem run_loadPasses_of_absent {passes : List Pass}
    (h : ∀ pass ∈ passes, d.written? pass = none) :
    (loadPasses resolver d v l passes).run r = (.ok [], r) := by
  rw [← List.append_nil passes, run_loadPasses_append [] h]
  rfl

section Single

variable {g : PassGraph} {written : Document.WrittenPass}
  (hd : d.passes = Table.empty.insert pass.name written) (hpass : pass ∈ Pass.all)
  (hdefault : pass ≠ .default)
include hd hpass hdefault

/-- A document that describes a single pass writes no other one. The default pass
would be the preview as well. -/
theorem written?_of_single {other : Pass} (hother : other ∈ Pass.all) (hne : other ≠ pass) :
    d.written? other = none := by
  have hget : ∀ q ∈ Pass.all, q ≠ pass → d.passes.get? q.name = none := by
    intro q hq hqne
    rw [hd, Table.get?_insert, if_neg ((Pass.name_inj hq hpass).not.2 hqne), Table.get?_empty]
  have hpreview : d.passes.get? Pass.default.name = none :=
    hget .default (by decide) (Ne.symm hdefault)
  have hnone : d.pass? other = none := by
    simp only [Document.pass?, hget other hother hne, hpreview, ite_self]
  rw [Document.written?, hnone, Option.filter_none]

/-- The shader of a document that describes a single pass. -/
theorem load_of_single (hgraph : (PassGraph.load resolver d pass).run r = (.ok (some g), r'))
    (hanalyse : analyse d (resolveVariant d v) l g = .ok p) :
    (load resolver l d v).run r =
      (.ok ⟨d, resolveVariant d v, addTypes .empty p.graph, [p]⟩, r') := by
  obtain ⟨before, after, hall⟩ := List.append_of_mem hpass
  have hnodup : (before ++ pass :: after).Nodup := hall ▸ Pass.nodup_all
  have hothers : ∀ other ∈ before ++ after, d.written? other = none := by
    intro other hother
    obtain ⟨hnot, -⟩ := List.nodup_cons.1 (List.perm_middle.nodup_iff.1 hnodup)
    have hmem : other ∈ Pass.all := by
      rw [hall]
      exact List.perm_middle.mem_iff.2 (List.mem_cons_of_mem _ hother)
    exact written?_of_single hd hpass hdefault hmem fun heq => hnot (heq ▸ hother)
  obtain ⟨hbefore, hafter⟩ := List.forall_mem_append.1 hothers
  have hpasses : (loadPasses resolver d (resolveVariant d v) l Pass.all).run r =
      (.ok [p], r') := by
    rw [hall, run_loadPasses_append _ hbefore, loadPasses, Loading.run_bind_of_ok hgraph]
    simp only [hanalyse]
    change (loadPasses resolver d (resolveVariant d v) l after >>= _ : Loading _).run r' = _
    rw [Loading.run_bind_of_ok (run_loadPasses_of_absent hafter)]
    rfl
  rw [load, Loading.run_bind_of_ok hpasses]
  rfl

end Single

/-- Without nodes there are no types to ask a resolver for. -/
theorem load_of_no_nodes (h : d.nodes.entries = []) (resolver' : Resolver) :
    load resolver l d v = load resolver' l d v := by
  have hgraph (pass : Pass) : PassGraph.load resolver d pass = PassGraph.load resolver' d pass := by
    simp only [PassGraph.load, h, PassGraph.instantiate]
  have hpasses (v : Variant) (passes : List Pass) :
      loadPasses resolver d v l passes = loadPasses resolver' d v l passes := by
    induction passes with
    | nil => rfl
    | cons pass rest ih => simp only [loadPasses, hgraph, ih]
  simp only [load, hpasses]

theorem graph_of_analyse {g : PassGraph} (h : analyse d v l g = .ok p) : p.graph = g := by
  simp only [analyse, Except.bind_eq_ok_iff, Except.ok.injEq] at h
  obtain ⟨b, -, rfl⟩ := h
  rfl

theorem analyse_of_base {g : PassGraph} {b : Mapping}
    (h : Mapping.base g.usage g.pass v l = .ok b) : analyse d v l g = .ok ⟨g, g.usage, b⟩ := by
  simp only [analyse, h]
  rfl

/-- What loading a pass comes to where some types are found: no graph, or a graph with
what analysis makes of it. -/
structure LoadsAs (resolver : Resolver) (d : Document) (v : Variant) (l : Limits)
    (types : String → Outcome NodeType) (pass : Pass) (answer : Option ShaderPass) : Prop where
  loaded : ∃ r, Registry.find resolver r = types ∧
    PassGraph.loaded resolver d pass r = .ok (answer.map ShaderPass.graph)
  analysed : ∀ p, answer = some p → p.Analysed v l

theorem LoadsAs.pass_eq {types : String → Outcome NodeType}
    (h : LoadsAs resolver d v l types pass (some p)) : p.graph.pass = pass := by
  obtain ⟨r, -, hloaded⟩ := h.loaded
  exact (PassGraph.sound_of_loaded hloaded).1

/-- What loading a pass and then others comes to. -/
theorem loadPasses_cons_eq_ok {rest : List Pass} {loaded : List ShaderPass}
    (h : (loadPasses resolver d v l (pass :: rest)).run r = (.ok loaded, r')) :
    ∃ r₁, ((PassGraph.load resolver d pass).run r = (.ok none, r₁) ∧
        (loadPasses resolver d v l rest).run r₁ = (.ok loaded, r')) ∨
      ∃ g p others, (PassGraph.load resolver d pass).run r = (.ok (some g), r₁) ∧
        analyse d v l g = .ok p ∧
        (loadPasses resolver d v l rest).run r₁ = (.ok others, r') ∧ loaded = p :: others := by
  obtain ⟨g?, r₁, hg, hrest⟩ := Loading.run_bind_eq_ok h
  refine ⟨r₁, ?_⟩
  cases g? with
  | none => exact .inl ⟨hg, hrest⟩
  | some g =>
    obtain ⟨p, r₂, hp, hrest⟩ := Loading.run_bind_eq_ok hrest
    obtain ⟨others, r₃, hothers, hresult⟩ := Loading.run_bind_eq_ok hrest
    cases hresult
    obtain rfl : r₂ = r₁ := (congrArg Prod.snd hp).symm
    exact .inr ⟨g, p, others, hg, congrArg Prod.fst hp, hothers, rfl⟩

/-- Passes are loaded one after the other, with the same types found for each. -/
theorem loadsAs_of_loadPasses {passes : List Pass} {loaded : List ShaderPass}
    (h : (loadPasses resolver d v l passes).run r = (.ok loaded, r')) :
    ∃ answers, List.Forall₂ (LoadsAs resolver d v l (Registry.find resolver r)) passes answers ∧
      loaded = answers.reduceOption := by
  induction passes generalizing r loaded with
  | nil =>
    cases h
    exact ⟨[], .nil, rfl⟩
  | cons pass rest ih =>
    obtain ⟨r₁, ⟨hg, hrest⟩ | ⟨g, p, others, hg, hp, hothers, rfl⟩⟩ := loadPasses_cons_eq_ok h
    · have hloaded : PassGraph.loaded resolver d pass r = .ok none := congrArg Prod.fst hg
      obtain ⟨answers, hanswers, rfl⟩ := ih hrest
      rw [(PassGraph.keeps_load resolver d pass).find_eq hg] at hanswers
      refine ⟨none :: answers, .cons ⟨⟨r, rfl, hloaded⟩, fun p hp => ?_⟩ hanswers, rfl⟩
      cases hp
    · have hloaded : PassGraph.loaded resolver d pass r = .ok (some g) := congrArg Prod.fst hg
      obtain ⟨-, hsound⟩ := PassGraph.sound_of_loaded hloaded
      obtain ⟨answers, hanswers, rfl⟩ := ih hothers
      rw [(PassGraph.keeps_load resolver d pass).find_eq hg] at hanswers
      refine ⟨some p :: answers, .cons ⟨⟨r, rfl, ?_⟩, fun q hq => ?_⟩ hanswers, rfl⟩
      · rw [Option.map_some, graph_of_analyse hp]
        exact hloaded
      · cases hq
        exact analysed_of_analyse hsound hp

/-- The passes of a loaded shader, each loaded with the types found for the shader. -/
theorem loadsAs_of_load (h : (load resolver l d v).run r = (.ok s, r')) :
    ∃ answers, List.Forall₂ (LoadsAs resolver d s.variant l (Registry.find resolver r)) Pass.all
      answers ∧ s.passes = answers.reduceOption := by
  obtain ⟨passes, r₁, hpasses, hresult⟩ := Loading.run_bind_eq_ok h
  have hanswers := loadsAs_of_loadPasses hpasses
  split at hresult
  · cases hresult
  · cases hresult
    exact hanswers

theorem loadsAs_of_mem (h : (load resolver l d v).run r = (.ok s, r')) (hp : p ∈ s.passes) :
    LoadsAs resolver d s.variant l (Registry.find resolver r) p.graph.pass (some p) := by
  obtain ⟨answers, hanswers, heq⟩ := loadsAs_of_load h
  rw [heq, List.reduceOption_mem_iff] at hp
  obtain ⟨pass, -, hloads⟩ := hanswers.flip.exists_mem _ hp
  rwa [← hloads.pass_eq] at hloads

/-- The passes of a loaded shader are as loading makes them for its variant. -/
theorem analysed_of_load (h : (load resolver l d v).run r = (.ok s, r')) :
    ∀ p ∈ s.passes, p.Analysed s.variant l := by
  intro p hp
  exact (loadsAs_of_mem h hp).analysed p rfl

/-- The passes of a loaded shader are in index order. -/
theorem sublist_of_load (h : (load resolver l d v).run r = (.ok s, r')) :
    (s.passes.map fun p => p.graph.pass).Sublist Pass.all := by
  obtain ⟨answers, hanswers, heq⟩ := loadsAs_of_load h
  rw [heq]
  clear heq
  generalize Pass.all = passes at hanswers
  induction hanswers with
  | nil => exact List.Sublist.slnil
  | @cons pass answer rest answers hloads _ ih =>
    cases answer with
    | none => exact ih.cons pass
    | some p =>
      rw [List.reduceOption_cons_of_some, List.map_cons, hloads.pass_eq]
      exact ih.cons_cons pass

theorem mem_of_pass? (h : s.pass? pass = some p) : p ∈ s.passes :=
  List.mem_of_find?_eq_some h

theorem pass_of_pass? (h : s.pass? pass = some p) : p.graph.pass = pass := by
  have hfound := List.find?_some (p := fun q : ShaderPass => q.graph.pass == pass) h
  exact eq_of_beq hfound

/-- A loaded shader has at most one graph for a pass. -/
theorem pass?_eq_some_iff (h : (load resolver l d v).run r = (.ok s, r')) :
    s.pass? pass = some p ↔ p ∈ s.passes ∧ p.graph.pass = pass := by
  constructor
  · intro hp
    exact ⟨mem_of_pass? hp, pass_of_pass? hp⟩
  · intro ⟨hmem, hpass⟩
    have hnodup : (s.passes.map fun p => p.graph.pass).Nodup :=
      (sublist_of_load h).nodup Pass.nodup_all
    cases hfound : s.pass? pass with
    | none =>
      have hother := List.find?_eq_none.1 hfound p hmem
      exact absurd (beq_iff_eq.2 hpass) hother
    | some q =>
      have hsame := (pass_of_pass? hfound).trans hpass.symm
      rw [List.inj_on_of_nodup_map hnodup (mem_of_pass? hfound) hmem hsame]

theorem isSome_pass?_iff (h : (load resolver l d v).run r = (.ok s, r')) :
    (s.pass? pass).isSome ↔ pass ∈ s.passes.map fun p => p.graph.pass := by
  simp only [Option.isSome_iff_exists, pass?_eq_some_iff h, List.mem_map]

/-- The passes that a loaded shader has are passes of the fixed list. -/
theorem mem_all_of_isSome (h : (load resolver l d v).run r = (.ok s, r'))
    (hpass : (s.pass? pass).isSome) : pass ∈ Pass.all :=
  (sublist_of_load h).subset ((isSome_pass?_iff h).1 hpass)

theorem requirePass_of_pass? (h : s.pass? pass = some p) : s.requirePass pass = .ok p := by
  rw [requirePass, h]
  rfl

theorem pass?_of_requirePass (h : s.requirePass pass = .ok p) : s.pass? pass = some p := by
  unfold requirePass at h
  cases hfound : s.pass? pass with
  | none =>
    rw [hfound] at h
    cases h
  | some q =>
    rw [hfound] at h
    cases h
    rfl

theorem mappings_eq_ok (hp : s.pass? pass = some p) (h : s.mappings material pass l = .ok (m, t)) :
    p.mapping.full p.usage material l = .ok (m, t) := by
  unfold mappings at h
  rw [requirePass_of_pass? hp] at h
  exact Except.mapError_eq_ok_iff.1 (Outcome.during_eq_ok_iff.1 h)

theorem mappings_of_full (hp : s.pass? pass = some p)
    (h : p.mapping.full p.usage material l = .ok (m, t)) :
    s.mappings material pass l = .ok (m, t) := by
  unfold mappings
  rw [requirePass_of_pass? hp]
  exact Outcome.during_eq_ok_iff.2 (Except.mapError_eq_ok_iff.2 h)

theorem body_of_ofPass (hp : s.pass? pass = some p)
    (hm : s.mappings material pass l = .ok (m, t)) {c : Body}
    (h : Body.ofPass p.graph (Accessors.text ⟨p.usage, m, t⟩) = .ok c) :
    s.body material pass l = .ok c := by
  unfold body
  rw [requirePass_of_pass? hp, hm]
  exact Outcome.during_eq_ok_iff.2 h

theorem body_eq_ok (hp : s.pass? pass = some p) (hm : s.mappings material pass l = .ok (m, t))
    {c : Body} (h : s.body material pass l = .ok c) :
    Body.ofPass p.graph (Accessors.text ⟨p.usage, m, t⟩) = .ok c := by
  unfold body at h
  rw [requirePass_of_pass? hp, hm] at h
  exact Outcome.during_eq_ok_iff.1 h

end Shader

end MaterialGraph
