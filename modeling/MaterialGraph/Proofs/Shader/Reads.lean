import MaterialGraph.Proofs.Shader.Cooking
import MaterialGraph.Proofs.Shader.Library

/-!
What compiling a shader reads, and when compiling it again gives the same texts.
A text that was read and is still the same has the same effect, so all runs that
succeed before the texts reach one state agree.
-/

namespace MaterialGraph

theorem Body.library_eq_ok {needed : ResourceKind → String → Prop} {old new : Resolver}
    (hkept : Resolver.KeptBy needed old new) :
    ∀ {types : List (String × NodeType)} {text : String},
      (∀ name ∈ ownNames types, needed .nodeCode name) →
      library old types = .ok text → library new types = .ok text := by
  intro types
  induction types with
  | nil => exact fun _ h => h
  | cons e rest ih =>
    obtain ⟨name, type⟩ := e
    intro text hneeded h
    rw [ownNames_cons] at hneeded
    unfold library at h ⊢
    split_ifs at h hneeded ⊢
    · exact ih hneeded h
    · obtain ⟨code?, hcode, h⟩ := Except.bind_eq_ok_iff.1 h
      cases code? with
      | none => cases h
      | some code =>
        obtain ⟨functions, hfunctions, h⟩ := Except.bind_eq_ok_iff.1 h
        refine Except.bind_eq_ok_iff.2 ⟨some code, ?_, Except.bind_eq_ok_iff.2 ⟨functions, ?_, h⟩⟩
        · exact hkept _ _ _ (hneeded name List.mem_cons_self) hcode
        · exact ih (fun other hother => hneeded other (List.mem_cons_of_mem name hother)) hfunctions

namespace Action

variable {σ α β : Type} {P : σ → Prop} {x : Action σ α} {f : α → Action σ β}
  {answer : Outcome α}

/-- Whether all successes that lead to a state of some kind start in one, too, and
have one answer. -/
def Repeats (P : σ → Prop) (x : Action σ α) (answer : Outcome α) : Prop :=
  ∀ ⦃a r b⦄, x.run a = (.ok r, b) → P b → P a ∧ answer = .ok r

def Repeatable (P : σ → Prop) (x : Action σ α) : Prop :=
  ∃ answer, x.Repeats P answer

theorem repeats_ofOutcome (r : Outcome α) : (ofOutcome r : Action σ α).Repeats P r := by
  intro a v b h hb
  cases h
  exact ⟨hb, rfl⟩

theorem repeatable_pure (v : α) : (pure v : Action σ α).Repeatable P :=
  ⟨.ok v, repeats_ofOutcome (.ok v)⟩

theorem Repeats.bind {k : α → Outcome β} (hx : x.Repeats P answer)
    (hf : ∀ v, (f v).Repeats P (k v)) : (x >>= f).Repeats P (answer >>= k) := by
  intro a w c h hc
  obtain ⟨v, b, hv, hw⟩ := Loading.run_bind_eq_ok h
  obtain ⟨hb, hk⟩ := hf v hw hc
  obtain ⟨ha, rfl⟩ := hx hv hb
  exact ⟨ha, hk⟩

theorem Repeatable.bind (hx : x.Repeatable P) (hf : ∀ v, (f v).Repeatable P) :
    (x >>= f).Repeatable P := by
  obtain ⟨answer, hanswer⟩ := hx
  choose k hk using hf
  exact ⟨answer >>= k, hanswer.bind hk⟩

/-- What follows a fixed outcome counts only where that is a success. -/
theorem repeatable_ofOutcome_bind {r : Outcome α} (hf : ∀ v, r = .ok v → (f v).Repeatable P) :
    ((ofOutcome r : Action σ α) >>= f).Repeatable P := by
  cases r with
  | error e =>
    refine ⟨.error e, fun a w b h _ => ?_⟩
    obtain ⟨v, b', hv, -⟩ := Loading.run_bind_eq_ok h
    have hfail : (Except.error e, a) = (Except.ok v, b') := hv
    cases hfail
  | ok v => exact hf v rfl

/-- Activities may depend on what they read from the state, as long as states of
the kind give the same. -/
theorem repeatable_read_bind {g : σ → Outcome α} {r : Outcome α}
    (hread : ∀ a v, P a → g a = .ok v → r = .ok v) (hf : ∀ v, (f v).Repeatable P) :
    ((get : Action σ σ) >>= fun a => ofOutcome (g a) >>= f).Repeatable P := by
  choose k hk using hf
  refine ⟨r >>= k, fun a w c h hc => ?_⟩
  obtain ⟨v, b, hv, hw⟩ := Loading.run_bind_eq_ok (x := ofOutcome (g a)) (r := a) h
  obtain ⟨hb, hkv⟩ := hk v hw hc
  have hgv : (g a, a) = (.ok v, b) := hv
  obtain ⟨hg, rfl⟩ := Prod.mk.inj hgv
  rw [hread a v hb hg]
  exact ⟨hb, hkv⟩

theorem repeatable_of_fails (h : ∀ a r b, x.run a ≠ (.ok r, b)) : x.Repeatable P :=
  ⟨.error (.report .io), fun a r b hrun => absurd hrun (h a r b)⟩

theorem repeats_mapM {f : α → Action σ β} {k : α → Outcome β} (hf : ∀ v, (f v).Repeats P (k v))
    (l : List α) : (l.mapM f).Repeats P (l.mapM k) := by
  induction l with
  | nil => exact repeats_ofOutcome (.ok [])
  | cons v l ih =>
    rw [List.mapM_cons, List.mapM_cons]
    exact (hf v).bind fun w => ih.bind fun ws => repeats_ofOutcome (.ok (w :: ws))

end Action

namespace Compiler

open MaterialGraph.Action

variable {σ : Type} {c : Compiler σ} {P : σ → Prop} {s : Shader} {pass : Pass}
  {material : Material} {texts : Resolver}

/-- Whether compiling the passes of a shader reads a resource: the code of a
function in the library, or a fragment that a stage of a pass is assembled from. -/
inductive Reads (c : Compiler σ) (s : Shader) (material : Material) (texts : Resolver) :
    ResourceKind → String → Prop
  | code {name : String} (h : name ∈ s.functionNames) : Reads c s material texts .nodeCode name
  | fragment {pass : Pass} {p : ShaderPass} {m : Mapping} {t : TexCoordTable}
      {materialText : String} {stage : Stage} {name : String} (hp : s.pass? pass = some p)
      (hm : s.mappings material pass c.config.limits = .ok (m, t))
      (h : Assembly.Reads c.config texts (plan s p material m materialText stage) name) :
      Reads c s material texts .fragment name

/-- Assembling a stage reads the fragments once, before artifacts are written. -/
theorem repeatable_assemble (texts : Resolver) {p : Plan}
    (hsource : ∀ a text, P a → Assembly.source c.config (c.resolver a) p = .ok text →
      Assembly.source c.config texts p = .ok text)
    (hpersist : c.optimizer?.isSome → ∀ side text,
      (c.persist (artifactName p.shader p.pass side p.stage) text).Repeatable P) :
    (c.assemble p).Repeatable P := by
  refine repeatable_read_bind (r := Assembly.source c.config texts p) hsource fun source => ?_
  split
  · exact repeatable_pure _
  · next o hoptimizer =>
    have hartifact := hpersist (by rw [hoptimizer]; rfl)
    refine (hartifact .pre source).bind fun _ => ?_
    split
    · exact (hartifact .post _).bind fun _ => repeatable_pure _
    · refine repeatable_of_fails fun a r b h => ?_
      obtain ⟨_, _, -, h⟩ := Loading.run_bind_eq_ok h
      cases h

theorem repeatable_compilePass (texts : Resolver)
    (hkept : ∀ a, P a → Resolver.KeptBy (c.Reads s material texts) (c.resolver a) texts)
    (hpersist : (s.pass? pass).isSome → c.optimizer?.isSome → ∀ side stage text,
      (c.persist (artifactName s.name pass side stage) text).Repeatable P) :
    (c.compilePass s pass material).Repeatable P := by
  refine repeatable_ofOutcome_bind fun p hrequire => ?_
  have hp := Shader.pass?_of_requirePass hrequire
  refine repeatable_ofOutcome_bind fun (m, t) hm => ?_
  have hlibrary (a : σ) (text : String) (ha : P a)
      (h : s.library (c.resolver a) = .ok text) : s.library texts = .ok text :=
    Body.library_eq_ok (hkept a ha) (fun _ hname => .code hname) h
  refine repeatable_read_bind hlibrary fun functions => ?_
  refine repeatable_ofOutcome_bind fun body _ => ?_
  have hassemble (stage : Stage) : (c.assemble (plan s p material m
      (functions ++ body.render entryPoint) stage)).Repeatable P := by
    refine repeatable_assemble texts (fun a text ha h => ?_)
      fun hoptimizer side text => ?_
    · exact Assembly.source_eq_ok (hkept a ha) (fun _ hname => .fragment hp hm hname) h
    · have hpass : p.graph.pass = pass := Shader.pass_of_pass? hp
      simpa only [plan, hpass] using hpersist (by rw [hp]; rfl) hoptimizer side stage text
  exact (hassemble .vertex).bind fun _ => (hassemble .fragment).bind fun _ => repeatable_pure _

variable {answer : Pass → Outcome CompiledPass}

/-- Cooking repeats as compiling the passes does. -/
theorem repeats_cook (h : ∀ pass, (c.compilePass s pass material).Repeats P (answer pass)) :
    (c.cook s material).Repeats P
      (s.cookedPasses.mapM (fun pass => answer pass >>= fun q => q.record pass) >>=
        Cooked.encode Cooked.textBackend) := by
  have hpass (pass : Pass) :
      (c.cookPass s material pass).Repeats P (answer pass >>= fun q => q.record pass) :=
    (h pass).bind fun q => (repeats_ofOutcome _).bind fun block =>
      repeats_ofOutcome (.ok (CookedPass.mk pass q.outputs block q.vertex q.fragment))
  exact (repeats_mapM hpass _).bind fun records => repeats_ofOutcome _

end Compiler

end MaterialGraph
