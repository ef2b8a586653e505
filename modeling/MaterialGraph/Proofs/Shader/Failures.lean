import MaterialGraph.Proofs.Document.Validity
import MaterialGraph.Proofs.Json.Parser
import MaterialGraph.Proofs.PassGraph.Failures
import MaterialGraph.Proofs.Shader.Variants

/-!
What loading and compiling a shader fail on. Main statement: from a parsed document and
resolvers that answer, every failure is a compile error of the phase, but for the one
that a document without written passes gives.
-/

namespace MaterialGraph

open Outcome (Settles settles_compile settles_iff settles_mapError settles_resolve)

/-- The errors of compiling a pass of a loaded shader without an optimizer. -/
def CompileError.OfCompiling : CompileError → Prop
  | texCoordLimit .. | attributeLimit .. | missingInclude .. | unaddressableSource .. => True
  | unknownNodeType .. | malformedNodeType .. | malformedBinding .. | missingOutput ..
  | missingReturnRegister .. | missingInput .. | unknownInput .. | recursiveNode ..
  | invalidOutput .. | unboundInput .. | textureLimit .. | lightLimit ..
  | optimizerFailed .. => False

open CompileError (OfLoading OfCompiling)

namespace Document

variable {d : Document} {text : String}

/-- A parsed document writes an output for some pass unless all its entries are empty. -/
theorem written?_eq_none_iff (h : parse text = .ok d) :
    (∀ pass ∈ Pass.all, d.written? pass = none) ↔ ∀ e ∈ d.passes.entries, e.2.isEmpty := by
  have hwritten (pass : Pass) : d.written? pass = none ↔
      ∀ w, d.pass? pass = some w → w.isEmpty := by
    simp [written?, Option.filter_eq_none_iff]
  simp only [hwritten]
  constructor
  · intro hnone e he
    obtain ⟨pass, hpass, hname⟩ := ofName?_of_parse h he
    refine hnone pass hpass e.2 ?_
    rw [pass?, hname, Table.get?_eq_some_iff.2 he]
  · intro hempty pass _ w hw
    rw [pass?] at hw
    split at hw
    · next w' hget =>
      cases hw
      exact hempty _ (Table.get?_eq_some_iff.1 hget)
    · split at hw
      · exact hempty _ (Table.get?_eq_some_iff.1 hw)
      · cases hw

end Document

namespace Shader

variable {resolver : Resolver} {d : Document} {v : Variant} {l : Limits} {r r' : Registry}
  {s : Shader} {p : ShaderPass} {pass : Pass} {material : Material} {m : Mapping}
  {t : TexCoordTable}

section Loading

theorem ofLoading_of_base_error {u : Usage} {e : CompileError}
    (h : Mapping.base u pass v l = .error e) : OfLoading e := by
  unfold Mapping.base at h
  simp only at h
  split at h
  · cases h
    trivial
  · split at h
    · cases h
      trivial
    · split at h
      · cases h
        trivial
      · cases h

theorem analyse_settles (d : Document) (v : Variant) (l : Limits) (g : PassGraph) :
    (analyse d v l g).Settles OfLoading fun _ => True := by
  have hbase : Settles OfLoading (fun _ => True)
      ((Mapping.base g.usage g.pass v l).mapError Failure.compile) :=
    settles_mapError (fun _ _ => trivial) fun e => ofLoading_of_base_error
  exact (hbase.during _).bind fun _ _ _ => trivial

/-- No pass is loaded exactly if none writes an output. -/
theorem loadPasses_settles (hresolver : resolver.Answers) (d : Document) (v : Variant)
    (l : Limits) (passes : List Pass) :
    Action.Settles OfLoading (fun ps => ps = [] ↔ ∀ pass ∈ passes, d.written? pass = none)
      (loadPasses resolver d v l passes) := by
  induction passes with
  | nil => exact Action.settles_pure (iff_of_true rfl fun _ h => absurd h List.not_mem_nil)
  | cons pass rest ih =>
    have hload : Action.Settles OfLoading (fun p? => p? = none ↔ d.written? pass = none)
        (PassGraph.load resolver d pass) := PassGraph.loaded_settles hresolver d pass
    refine hload.bind fun p? hp? => ?_
    cases p? with
    | none =>
      refine fun r => (ih r).imp fun ps hps => hps.trans ?_
      rw [List.forall_mem_cons, and_iff_right (hp?.1 rfl)]
    | some g =>
      refine (Action.settles_ofOutcome (analyse_settles d v l g)).bind fun p _ => ?_
      refine ih.bind fun others _ => Action.settles_pure ?_
      refine iff_of_false (List.cons_ne_nil p others) fun hnone => ?_
      cases hp?.2 (hnone pass List.mem_cons_self)

/-- Loading fails on a compile error, unless the document writes no output at all. -/
theorem load_error (hresolver : resolver.Answers) {f : Failure}
    (h : ((load resolver l d v).run r).1 = .error f) :
    f.Among OfLoading ∨
      f = .fault (.noPasses d.name) ∧ ∀ pass ∈ Pass.all, d.written? pass = none := by
  have hpasses := loadPasses_settles hresolver d (resolveVariant d v) l Pass.all r
  rw [load] at h
  rcases hrun : (loadPasses resolver d (resolveVariant d v) l Pass.all).run r with ⟨answer, r₁⟩
  rw [hrun] at hpasses
  cases answer with
  | error g =>
    rw [Loading.run_bind_of_error hrun] at h
    cases h
    exact .inl hpasses
  | ok ps =>
    rw [Loading.run_bind_of_ok hrun] at h
    split at h
    · next hempty =>
      cases h
      exact .inr ⟨rfl, hpasses.1 (List.isEmpty_iff.1 hempty)⟩
    · cases h

theorem load_of_absent (resolver : Resolver) (l : Limits) (v : Variant) (r : Registry)
    (h : ∀ pass ∈ Pass.all, d.written? pass = none) :
    ((load resolver l d v).run r).1 = .error (.fault (.noPasses d.name)) := by
  rw [load, Loading.run_bind_of_ok (run_loadPasses_of_absent h)]
  rfl

end Loading

section Compiling

theorem mappings_settles (hp : s.pass? pass = some p) :
    (s.mappings material pass l).Settles OfCompiling fun _ => True := by
  have hofUsage (e : CompileError) (h : TexCoordTable.ofUsage p.usage material l = .error e) :
      OfCompiling e := by
    unfold TexCoordTable.ofUsage at h
    simp only at h
    split at h
    · cases h
      trivial
    · cases h
  have hfull (e : CompileError) (h : p.mapping.full p.usage material l = .error e) :
      OfCompiling e := by
    unfold Mapping.full at h
    cases htable : TexCoordTable.ofUsage p.usage material l with
    | error e' =>
      rw [htable] at h
      cases h
      exact hofUsage e htable
    | ok t =>
      rw [htable] at h
      simp only [bind, Except.bind] at h
      split at h
      · cases h
        trivial
      · cases h
  rw [mappings, requirePass_of_pass? hp]
  exact (settles_mapError (fun _ _ => trivial) hfull).during _

/-- A pass of a loaded shader that is mapped has a body unless it reads sprite skins. -/
theorem body_settles (hload : (load resolver l d v).run r = (.ok s, r'))
    (hp : s.pass? pass = some p) {l' : Limits} (hmap : s.mappings material pass l' = .ok (m, t)) :
    (s.body material pass l').Settles OfCompiling fun _ => True := by
  obtain ⟨hsound, husage, hbase⟩ := analysed_of_load hload p (mem_of_pass? hp)
  have hfull := mappings_eq_ok hp hmap
  rw [husage] at hbase hfull
  have hbody : Settles OfCompiling (fun _ => True)
      (Body.ofPass p.graph (Accessors.text ⟨p.graph.usage, m, t⟩)) := by
    refine settles_iff.2 ⟨fun _ _ => trivial, fun f hf => ?_⟩
    rw [Body.eq_of_ofPass_error hsound hbase hfull hf]
    exact ⟨_, rfl, trivial⟩
  rw [body, requirePass_of_pass? hp, hmap]
  change Settles _ _ (Outcome.during _ (Body.ofPass _ (Accessors.text ⟨p.usage, m, t⟩)))
  rw [husage]
  exact hbody.during _

theorem library_settles (h : resolver.Answers) (types : List (String × NodeType)) :
    (Body.library resolver types).Settles OfCompiling fun _ => True := by
  induction types with
  | nil => trivial
  | cons e rest ih =>
    obtain ⟨name, type⟩ := e
    rw [Body.library]
    split
    · exact ih
    · refine (settles_resolve h .nodeCode name).bind fun code? _ _ => ?_
      cases code? with
      | none => exact settles_compile trivial
      | some code => exact ih.bind fun _ _ _ => trivial

theorem prelude_settles (h : resolver.Answers) (names : List String) :
    (Assembly.prelude resolver names).Settles OfCompiling fun _ => True := by
  induction names with
  | nil => trivial
  | cons name rest ih =>
    refine (settles_resolve h .fragment name).bind fun text? _ _ => ?_
    cases text? with
    | none => exact settles_compile trivial
    | some text => exact ih.bind fun _ _ _ => trivial

theorem expandLine_settles (h : resolver.Answers) (stage : Stage) (materialText : String)
    (line : List Char) :
    (Include.expandLine resolver stage materialText line).Settles OfCompiling fun _ => True := by
  unfold Include.expandLine
  split
  · trivial
  · split
    · trivial
    · next name _ _ =>
      refine (settles_resolve h .fragment name).bind fun text? _ _ => ?_
      cases text? with
      | none => exact settles_compile trivial
      | some text => trivial

theorem expandLines_settles (h : resolver.Answers) (stage : Stage) (materialText : String)
    (lines : List (List Char)) :
    (Include.expandLines resolver stage materialText lines).Settles OfCompiling fun _ => True := by
  induction lines with
  | nil => trivial
  | cons line rest ih =>
    exact (expandLine_settles h stage materialText line).bind fun _ _ _ =>
      ih.bind fun _ _ _ => trivial

theorem source_settles (h : resolver.Answers) (config : Config) (plan : Plan) :
    (Assembly.source config resolver plan).Settles OfCompiling fun _ => True := by
  refine (prelude_settles h _).bind fun fragments _ _ => ?_
  refine (expandLines_settles h _ _ _).bind fun e _ _ => ?_
  split <;> trivial

variable {σ : Type} {c : Compiler σ}

theorem assemble_settles (hresolver : ∀ a, (c.resolver a).Answers)
    (hoptimizer : c.optimizer? = none) (plan : Plan) :
    (c.assemble plan).Settles OfCompiling fun _ => True := by
  refine Action.settles_get.bind fun a _ => ?_
  refine (Action.settles_ofOutcome (source_settles (hresolver a) _ _)).bind fun source _ => ?_
  rw [hoptimizer]
  exact Action.settles_pure trivial

theorem compilePass_settles (hload : (load resolver l d v).run r = (.ok s, r'))
    (hresolver : ∀ a, (c.resolver a).Answers) (hoptimizer : c.optimizer? = none)
    (hp : s.pass? pass = some p) (material : Material) :
    (c.compilePass s pass material).Settles OfCompiling fun _ => True := by
  have hpass : Settles OfCompiling (fun _ => True) (s.requirePass pass) := by
    rw [requirePass_of_pass? hp]
    trivial
  have hmappings : Settles OfCompiling (fun _ => True)
      (s.mappings material pass c.config.limits) := mappings_settles hp
  refine (Action.settles_ofOutcome hpass).bind fun q _ => ?_
  refine (Action.settles_ofOutcome hmappings.eq).bind fun (m, t) hmap => ?_
  refine Action.settles_get.bind fun a _ => ?_
  refine (Action.settles_ofOutcome (library_settles (hresolver a) _)).bind fun functions _ => ?_
  refine (Action.settles_ofOutcome (body_settles hload hp hmap)).bind fun body _ => ?_
  refine (assemble_settles hresolver hoptimizer _).bind fun vertex _ => ?_
  exact (assemble_settles hresolver hoptimizer _).bind fun fragment _ => Action.settles_pure trivial

end Compiling

/-- Every failure is a compile error of its phase, except that a parsed document whose
entries for passes are all empty has no pass to load. -/
theorem failures_classified {text : String} (hparse : Document.parse text = .ok d)
    (hresolver : resolver.Answers) (l : Limits) (v : Variant) (r : Registry) :
    (∀ f, ((load resolver l d v).run r).1 = .error f →
      f.Among OfLoading ∨ f = .fault (.noPasses d.name)) ∧
    ((∃ f, ((load resolver l d v).run r).1 = .error f ∧ ∀ e, f.cause ≠ .compile e) ↔
      ∀ e ∈ d.passes.entries, e.2.isEmpty) ∧
    ∀ s r', (load resolver l d v).run r = (.ok s, r') →
      ∀ {σ : Type} (c : Compiler σ), (∀ a, (c.resolver a).Answers) → c.optimizer? = none →
        ∀ pass p, s.pass? pass = some p → ∀ material a f a',
          (c.compilePass s pass material).run a = (.error f, a') → f.Among OfCompiling := by
  refine ⟨fun f hf => (load_error hresolver hf).imp_right And.left, ?_, ?_⟩
  · rw [← Document.written?_eq_none_iff hparse]
    constructor
    · rintro ⟨f, hf, hcause⟩
      rcases load_error hresolver hf with ⟨e, he, -⟩ | ⟨-, hnone⟩
      · exact absurd he (hcause e)
      · exact hnone
    · exact fun hnone => ⟨_, load_of_absent resolver l v r hnone, fun e => nofun⟩
  · intro s r' hload σ c hanswers hoptimizer pass p hp material a f a' hrun
    have hresult := compilePass_settles hload hanswers hoptimizer hp material a
    rw [hrun] at hresult
    exact hresult

section Bare

/-- A document that names a pass and writes no output for it. -/
def blank : Document where
  name := "blank"
  passes := Table.empty.insert "Default" {}

def blankText : String :=
  (Json.object [(some "name", .text "blank"),
    (some "passes", .object [(some "Default", .object [])])]).render

theorem parse_blankText : Document.parse blankText = .ok blank := by
  rw [Document.parse, blankText, Json.parse?_render (by simp)]
  decide +kernel

/-- The text of `glossy`, without what is the default. -/
def glossyText : String :=
  (Json.object [(some "name", .text "glossy"), (some "passes", .object [(some "Fullbright", .object
    [(some "color", .object [(some "source", .text "light_tan_vec"), (some "index", .int 1)]),
      (some "alpha", .object [(some "source", .text "tex_coord")])])])]).render

theorem parse_glossyText : Document.parse glossyText = .ok glossy := by
  rw [Document.parse, glossyText, Json.parse?_render (by simp)]
  decide +kernel

/-- A compiler with the usual prelude and no texts at all. -/
def bare : Compiler Unit where
  config := {}
  resolver _ := ResourceTable.resolver {}

theorem run_compilePass_bare : (bare.compilePass glossyShader .fullbright glossyMaterial).run () =
    (.error (.compile (.missingInclude "Common.glsl")), ()) := by
  rfl

theorem failures_classified_bare :
    (∃ f, ((load (ResourceTable.resolver {}) {} blank {}).run .empty).1 = .error f ∧
      ∀ e, f.cause ≠ .compile e) ∧
    ∃ f, (bare.compilePass glossyShader .fullbright glossyMaterial).run () = (.error f, ()) ∧
      f.Among OfCompiling := by
  have hanswers : Resolver.Answers (ResourceTable.resolver {}) := ResourceTable.answers {}
  obtain ⟨-, hnone, -⟩ := failures_classified parse_blankText hanswers {} {} .empty
  obtain ⟨-, -, hcompile⟩ :=
    failures_classified parse_glossyText hanswers {} glossyMaterial.variant .empty
  refine ⟨hnone.2 (by decide), _, run_compilePass_bare, ?_⟩
  exact hcompile _ _ load_glossy bare (fun _ => hanswers) rfl _ _ rfl _ _ _ _ run_compilePass_bare

end Bare

end Shader

end MaterialGraph
