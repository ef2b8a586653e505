import MaterialGraph.Proofs.Assembly.Artifacts

/-!
What a sink keeps while one plan after the other is assembled. Plans of different shaders,
passes or stages have no name in common, so assembling one leaves what was kept of another.
Main statement: all names are different, and after any row of assemblies a plan whose shader,
pass and stage come once has all that it handed over.
-/

namespace MaterialGraph

open Assembly (Course)

variable {σ : Type} {c : Compiler σ} {s : ArtifactSink σ} {kept : σ → String → Option String}
  {config : Config} {resolver : Resolver} {optimizer : Option Optimizer} {p q : Plan}
  {plans : List Plan} {answer : Outcome String} {artifacts : List (String × String)}
  {name : String}

namespace Plan

/-- What sets a plan apart in the names of its artifacts. -/
def key (p : Plan) : String × Pass × Stage :=
  (p.shader, p.pass, p.stage)

/-- The names under which a sink may get something for a plan. -/
def names (p : Plan) : List String :=
  [p.artifact .pre, p.artifact .post, p.log]

theorem mem_names_iff : name ∈ p.names ↔ (∃ side, name = p.artifact side) ∨ name = p.log := by
  constructor
  · intro h
    simp only [names, List.mem_cons, List.not_mem_nil, or_false] at h
    rcases h with h | h | h
    · exact .inl ⟨.pre, h⟩
    · exact .inl ⟨.post, h⟩
    · exact .inr h
  · rintro (⟨side, rfl⟩ | rfl)
    · cases side <;> simp [names]
    · simp [names]

/-- Plans with a name in common have one key, if their passes are in use. -/
theorem key_eq_of_mem_names (hp : p.pass ∈ Pass.all) (hq : q.pass ∈ Pass.all)
    (h : name ∈ p.names) (h' : name ∈ q.names) : p.key = q.key := by
  rw [mem_names_iff] at h h'
  have hkey (hshader : p.shader = q.shader) (hindex : p.pass.index = q.pass.index)
      (hstage : p.stage = q.stage) : p.key = q.key := by
    rw [key, key, hshader, (Pass.index_inj hp hq).1 hindex, hstage]
  rcases h with ⟨side, rfl⟩ | rfl <;> rcases h' with ⟨side', h'⟩ | h'
  · obtain ⟨hshader, hindex, -, hstage⟩ := artifactName_inj.1 h'
    exact hkey hshader hindex hstage
  · exact absurd h' artifactName_ne_logName
  · exact absurd h'.symm artifactName_ne_logName
  · obtain ⟨hshader, hindex, hstage⟩ := logName_inj.1 h'
    exact hkey hshader hindex hstage

end Plan

/-- A sink gets nothing under other names than those of the plan. -/
theorem Assembly.Course.names_subset (h : Course config resolver optimizer p answer artifacts) :
    artifacts.map Prod.fst ⊆ p.names := by
  cases h with
  | failed _ => exact List.nil_subset _
  | bypassed _ _ => exact List.nil_subset _
  | accepted _ _ _ _ => simp [Plan.names]
  | rejected _ _ _ _ => simp [Plan.names]

namespace Compiler

/-- What a row of plans makes of the outside, also where some of them fail. -/
def assembleAll (c : Compiler σ) (plans : List Plan) (state : σ) : σ :=
  plans.foldl (fun state p => ((c.assemble p).run state).2) state

theorem assembleAll_cons (c : Compiler σ) (p : Plan) (plans : List Plan) (state : σ) :
    c.assembleAll (p :: plans) state = c.assembleAll plans ((c.assemble p).run state).2 := rfl

theorem assembleAll_append (c : Compiler σ) (before after : List Plan) (state : σ) :
    c.assembleAll (before ++ after) state = c.assembleAll after (c.assembleAll before state) :=
  List.foldl_append

section Kept

variable (hkeeps : s.Keeps kept) (hsink : c.sink = some s)
include hkeeps hsink

theorem kept_assemble {state : σ}
    (h : Course c.config (c.resolver state) c.optimizer p answer artifacts) (name : String) :
    kept ((c.assemble p).run state).2 name = (artifacts.lookup name).or (kept state name) := by
  rw [run_assemble h]
  exact kept_handOver hkeeps hsink h.nodup state name

theorem kept_assemble_of_notMem (h : name ∉ p.names) (state : σ) :
    kept ((c.assemble p).run state).2 name = kept state name := by
  obtain ⟨answer, artifacts, hcourse⟩ :=
    Assembly.exists_course c.config (c.resolver state) c.optimizer p
  have hnone : artifacts.lookup name = none := List.lookup_eq_none_iff.2 fun e he =>
    bne_iff_ne.2 fun heq => h (heq ▸ hcourse.names_subset (List.mem_map_of_mem he))
  rw [kept_assemble hkeeps hsink hcourse, hnone, Option.none_or]

theorem kept_assembleAll_of_notMem (h : ∀ q ∈ plans, name ∉ q.names) (state : σ) :
    kept (c.assembleAll plans state) name = kept state name := by
  induction plans generalizing state with
  | nil => rfl
  | cons p rest ih =>
    rw [List.forall_mem_cons] at h
    rw [assembleAll_cons, ih h.2, kept_assemble_of_notMem hkeeps hsink h.1]

end Kept

/-- Different artifacts and logs have different names, however the shaders are named. So a plan
that is assembled once has all its artifacts in the end, whatever else is assembled before
and after it. -/
theorem artifacts_distinct :
    (∀ pass ∈ Pass.all, ∀ pass' ∈ Pass.all, ∀ shader shader' side side' stage stage',
      artifactName shader pass side stage = artifactName shader' pass' side' stage' ↔
        shader = shader' ∧ pass = pass' ∧ side = side' ∧ stage = stage') ∧
    (∀ pass ∈ Pass.all, ∀ pass' ∈ Pass.all, ∀ shader shader' stage stage',
      logName shader pass stage = logName shader' pass' stage' ↔
        shader = shader' ∧ pass = pass' ∧ stage = stage') ∧
    (∀ shader shader' pass pass' side stage stage',
      artifactName shader pass side stage ≠ logName shader' pass' stage') ∧
    ∀ (σ : Type) (c : Compiler σ) (s : ArtifactSink σ) (kept : σ → String → Option String),
      c.sink = some s → s.Keeps kept → ∀ (p : Plan) (before after : List Plan),
        p.pass ∈ Pass.all → (∀ q ∈ before ++ after, q.pass ∈ Pass.all ∧ q.key ≠ p.key) →
        ∀ state answer artifacts,
          Course c.config (c.resolver (c.assembleAll before state)) c.optimizer p answer
            artifacts →
          ∀ name ∈ p.names, kept (c.assembleAll (before ++ p :: after) state) name =
            (artifacts.lookup name).or (kept state name) := by
  refine ⟨?_, ?_, fun _ _ _ _ _ _ _ => artifactName_ne_logName, ?_⟩
  · intro pass hpass pass' hpass' shader shader' side side' stage stage'
    rw [artifactName_inj, Pass.index_inj hpass hpass']
  · intro pass hpass pass' hpass' shader shader' stage stage'
    rw [logName_inj, Pass.index_inj hpass hpass']
  · intro σ c s kept hsink hkeeps p before after hp hothers state answer artifacts hcourse name hname
    have hapart : ∀ q ∈ before ++ after, name ∉ q.names := fun q hq hmem =>
      (hothers q hq).2 (Plan.key_eq_of_mem_names (hothers q hq).1 hp hmem hname)
    rw [List.forall_mem_append] at hapart
    calc
      kept (c.assembleAll (before ++ p :: after) state) name
        = kept ((c.assemble p).run (c.assembleAll before state)).2 name := by
          rw [assembleAll_append, assembleAll_cons,
            kept_assembleAll_of_notMem hkeeps hsink hapart.2]
      _ = (artifacts.lookup name).or (kept (c.assembleAll before state) name) :=
          kept_assemble hkeeps hsink hcourse name
      _ = (artifacts.lookup name).or (kept state name) := by
          rw [kept_assembleAll_of_notMem hkeeps hsink hapart.1]

/-- The plan of a shader whose name goes on as the artifacts of another one do. -/
def dottedPlan : Plan :=
  { rejectedPlan with shader := "hook.9" }

theorem artifacts_distinct_dotted :
    dottedPlan.pass ∈ Pass.all ∧ dottedPlan.key ≠ rejectedPlan.key ∧
    dottedPlan.artifact .pre ≠ rejectedPlan.artifact .pre ∧
    dottedPlan.log ≠ rejectedPlan.log ∧ dottedPlan.artifact .pre ≠ rejectedPlan.log ∧
    ((rejecting .table).assembleAll [dottedPlan, rejectedPlan, dottedPlan] .empty).get?
      rejectedPlan.log = some "no" ∧
    ((rejecting .table).assembleAll [dottedPlan, rejectedPlan, dottedPlan] .empty).get?
      (rejectedPlan.artifact .post) = none := by
  obtain ⟨hartifact, hlog, hapart, hkept⟩ := artifacts_distinct
  have hpass : Pass.fullbright ∈ Pass.all := by decide
  have hshader : "hook.9" ≠ "hook" := by decide
  have hkey : dottedPlan.key ≠ rejectedPlan.key := fun h => hshader (congrArg Prod.fst h)
  have hsource := rejectedParts.source_eq_text rejectedPlan
  have hrow := hkept _ (rejecting .table) .table Table.get? rfl ArtifactSink.keeps_table
    rejectedPlan [dottedPlan] [dottedPlan] hpass
    (List.forall_mem_cons.2 ⟨⟨hpass, hkey⟩, List.forall_mem_singleton.2 ⟨hpass, hkey⟩⟩)
    .empty _ _ (.rejected hsource rfl rfl rfl)
  refine ⟨hpass, hkey, fun h => ?_, fun h => ?_, hapart _ _ _ _ _ _ _, ?_, ?_⟩
  · exact hshader ((hartifact _ hpass _ hpass ..).1 h).1
  · exact hshader ((hlog _ hpass _ hpass ..).1 h).1
  · refine (hrow _ (Plan.mem_names_iff.2 (.inr rfl))).trans ?_
    decide +kernel
  · refine (hrow _ (Plan.mem_names_iff.2 (.inl ⟨.post, rfl⟩))).trans ?_
    decide +kernel

end Compiler

end MaterialGraph
