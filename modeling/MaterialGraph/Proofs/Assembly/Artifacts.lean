import MaterialGraph.Assembly.Assemble
import MaterialGraph.Proofs.Assembly.Names
import MaterialGraph.Proofs.Assembly.Shape
import MaterialGraph.Proofs.Settles

/-!
What assembling hands to the sink. The answer and the artifacts are decided before the sink
gets any of them. Main statement: every sink leaves the answer as it is, and one that works
has these artifacts and nothing else that it did not have before.
-/

namespace MaterialGraph

variable {σ : Type} {c : Compiler σ} {s : ArtifactSink σ} {kept : σ → String → Option String}
  {config : Config} {resolver : Resolver} {optimizer : Option Optimizer} {p : Plan} {state : σ}
  {answer : Outcome String} {artifacts : List (String × String)}

/-- What is kept under a name is the last text that was handed over under it. -/
structure ArtifactSink.Keeps (s : ArtifactSink σ) (kept : σ → String → Option String) : Prop where
  works : ∀ name text state, (s.persist name text state).1 = .ok ()
  kept_persist : ∀ name text state other,
    kept (s.persist name text state).2 other = if other = name then some text else kept state other

theorem ArtifactSink.keeps_table : ArtifactSink.table.Keeps Table.get? where
  works _ _ _ := rfl
  kept_persist name text t other := by
    rw [← Table.get?_insert]
    rfl

namespace Plan

def artifact (p : Plan) (side : ArtifactSide) : String :=
  artifactName p.shader p.pass side p.stage

def log (p : Plan) : String :=
  logName p.shader p.pass p.stage

/-- The names of what a sink gets for a plan are different. -/
theorem nodup_names (p : Plan) : [p.artifact .pre, p.artifact .post, p.log].Nodup := by
  have hsides : p.artifact .pre ≠ p.artifact .post := fun h =>
    absurd (artifactName_inj.1 h).2.2.1 (by decide)
  have hlog (side : ArtifactSide) : p.artifact side ≠ p.log := artifactName_ne_logName
  simp [hsides, hlog]

end Plan

namespace Assembly

/-- What becomes of an optimized text. -/
def finish (config : Config) (stage : Stage) (optimized : String) : String :=
  if config.gles then precisionLine stage ++ optimized else optimized

/-- The ways in which a plan is assembled, with the answer and with the artifacts in the
order in which the sink gets them. -/
inductive Course (config : Config) (resolver : Resolver) (optimizer : Option Optimizer) (p : Plan) :
    Outcome String → List (String × String) → Prop
  | failed {f : Failure} (h : source config resolver p = .error f) :
      Course config resolver optimizer p (.error f) []
  | bypassed {text : String} (h : source config resolver p = .ok text)
      (hoptimizer : optimizer = none ∨ config.optimize = false) :
      Course config resolver optimizer p (.ok text) []
  | accepted {text optimized : String} {o : Optimizer} (h : source config resolver p = .ok text)
      (hoptimizer : optimizer = some o) (henabled : config.optimize = true)
      (hoptimize : o.optimize text p.stage = .ok optimized) :
      Course config resolver optimizer p (.ok (finish config p.stage optimized))
        [(p.artifact .pre, text), (p.artifact .post, finish config p.stage optimized)]
  | rejected {text log : String} {o : Optimizer} (h : source config resolver p = .ok text)
      (hoptimizer : optimizer = some o) (henabled : config.optimize = true)
      (hoptimize : o.optimize text p.stage = .error log) :
      Course config resolver optimizer p
        (.error (.compile (.optimizerFailed p.shader p.pass p.stage log)))
        [(p.artifact .pre, text), (p.log, log)]

theorem exists_course (config : Config) (resolver : Resolver) (optimizer : Option Optimizer)
    (p : Plan) : ∃ answer artifacts, Course config resolver optimizer p answer artifacts := by
  cases hsource : source config resolver p with
  | error f => exact ⟨_, _, .failed hsource⟩
  | ok text =>
    cases optimizer with
    | none => exact ⟨_, _, .bypassed hsource (.inl rfl)⟩
    | some o =>
      cases henabled : config.optimize with
      | false => exact ⟨_, _, .bypassed hsource (.inr henabled)⟩
      | true =>
        cases hoptimize : o.optimize text p.stage with
        | ok optimized => exact ⟨_, _, .accepted hsource rfl henabled hoptimize⟩
        | error log => exact ⟨_, _, .rejected hsource rfl henabled hoptimize⟩

/-- No name is used twice. -/
theorem Course.nodup (h : Course config resolver optimizer p answer artifacts) :
    (artifacts.map Prod.fst).Nodup := by
  have hnames := p.nodup_names
  cases h with
  | failed _ => exact .nil
  | bypassed _ _ => exact .nil
  | accepted _ _ _ _ => exact hnames.sublist (by simp)
  | rejected _ _ _ _ => exact hnames.sublist (by simp)

end Assembly

namespace Compiler

open Assembly (Course)

/-- What artifacts make of the outside when the sink gets one after the other. -/
def handOver (c : Compiler σ) (artifacts : List (String × String)) (state : σ) : σ :=
  match c.sink with
  | none => state
  | some s => artifacts.foldl (fun state e => (s.persist e.1 e.2 state).2) state

theorem handOver_nil (c : Compiler σ) (state : σ) : c.handOver [] state = state := by
  unfold handOver
  split <;> rfl

/-- Whether the sink takes an artifact or fails, the activity goes on. -/
theorem run_persist (c : Compiler σ) (name text : String) (state : σ) :
    (c.persist name text).run state = (.ok (), c.handOver [(name, text)] state) := by
  unfold persist handOver
  cases c.sink <;> rfl

theorem handOver_cons (c : Compiler σ) (e : String × String) (artifacts : List (String × String))
    (state : σ) :
    c.handOver (e :: artifacts) state = c.handOver artifacts (c.handOver [e] state) := by
  unfold handOver
  cases c.sink <;> rfl

theorem run_persist_bind {α : Type} (c : Compiler σ) (name text : String) (x : Action σ α)
    (state : σ) : (c.persist name text >>= fun _ => x).run state =
      x.run (c.handOver [(name, text)] state) :=
  Loading.run_bind_of_ok (c.run_persist name text state)

theorem optimizer?_of_enabled (h : c.config.optimize = true) : c.optimizer? = c.optimizer :=
  if_pos h

theorem run_assemble (h : Course c.config (c.resolver state) c.optimizer p answer artifacts) :
    (c.assemble p).run state = (answer, c.handOver artifacts state) := by
  have hget : (get : Action σ σ).run state = (.ok state, state) := rfl
  unfold assemble
  rw [Loading.run_bind_of_ok hget]
  cases h with
  | failed hsource =>
    rw [Loading.run_bind_of_error (Action.run_ofOutcome hsource state), handOver_nil]
  | bypassed hsource hoptimizer =>
    have hnone : c.optimizer? = none := by
      unfold optimizer?
      rcases hoptimizer with h | h <;> simp [h]
    rw [Loading.run_bind_of_ok (Action.run_ofOutcome hsource state), hnone, handOver_nil]
    rfl
  | accepted hsource hoptimizer henabled hoptimize =>
    rw [Loading.run_bind_of_ok (Action.run_ofOutcome hsource state),
      optimizer?_of_enabled henabled, hoptimizer]
    dsimp only
    rw [run_persist_bind, hoptimize]
    dsimp only
    rw [run_persist_bind]
    exact Prod.ext rfl (c.handOver_cons _ _ state).symm
  | rejected hsource hoptimizer henabled hoptimize =>
    rw [Loading.run_bind_of_ok (Action.run_ofOutcome hsource state),
      optimizer?_of_enabled henabled, hoptimizer]
    dsimp only
    rw [run_persist_bind, hoptimize]
    dsimp only
    rw [run_persist_bind]
    exact Prod.ext rfl (c.handOver_cons _ _ state).symm

/-- A sink that works has what it gets, beside what it had. -/
theorem kept_handOver (hkeeps : s.Keeps kept) (hsink : c.sink = some s)
    (hnodup : (artifacts.map Prod.fst).Nodup) (state : σ) (name : String) :
    kept (c.handOver artifacts state) name = (artifacts.lookup name).or (kept state name) := by
  induction artifacts generalizing state with
  | nil => rw [handOver_nil, List.lookup_nil, Option.none_or]
  | cons e rest ih =>
    obtain ⟨first, text⟩ := e
    rw [List.map_cons, List.nodup_cons] at hnodup
    have hfirst : kept (c.handOver [(first, text)] state) name =
        if name = first then some text else kept state name := by
      simp only [handOver, hsink]
      exact hkeeps.kept_persist first text state name
    rw [handOver_cons, ih hnodup.2, hfirst, List.lookup_cons]
    by_cases heq : name = first
    · subst heq
      have hrest : rest.lookup name = none := List.lookup_eq_none_iff.2 fun other hother =>
        bne_iff_ne.2 fun h => hnodup.1 (List.mem_map.2 ⟨other, hother, h.symm⟩)
      rw [hrest, if_pos rfl, BEq.rfl]
      rfl
    · rw [if_neg heq, beq_eq_false_iff_ne.2 heq]

/-- The answer and the artifacts of a plan are the same for every sink, whether it takes
them or fails. After a sink that works there is what was there before and the artifacts. -/
theorem assemble_account (config : Config) (resolver : Resolver) (optimizer : Option Optimizer)
    (p : Plan) :
    [p.artifact .pre, p.artifact .post, p.log].Nodup ∧
    (∃ answer artifacts, Course config resolver optimizer p answer artifacts) ∧
    ∀ answer artifacts, Course config resolver optimizer p answer artifacts →
      ∀ (σ : Type) (c : Compiler σ) (state : σ), c.config = config → c.optimizer = optimizer →
        c.resolver state = resolver →
        (c.assemble p).run state = (answer, c.handOver artifacts state) ∧
        ∀ s kept, c.sink = some s → s.Keeps kept → ∀ name,
          kept ((c.assemble p).run state).2 name =
            (artifacts.lookup name).or (kept state name) := by
  refine ⟨p.nodup_names, Assembly.exists_course config resolver optimizer p, ?_⟩
  rintro answer artifacts hcourse σ c state rfl rfl rfl
  have hrun : (c.assemble p).run state = (answer, c.handOver artifacts state) := run_assemble hcourse
  refine ⟨hrun, fun s kept hsink hkeeps name => ?_⟩
  rw [hrun]
  exact kept_handOver hkeeps hsink hcourse.nodup state name

/-- Takes no artifact. -/
def refusing : ArtifactSink σ where
  persist _ _ state := (.error (.report .io), state)

/-- Rejects every text. -/
def rejecting (sink : ArtifactSink (Table String)) : Compiler (Table String) where
  config := { gles := true, prelude := [] }
  resolver _ := ResourceTable.resolver {}
  optimizer := some ⟨fun _ _ => .error "no"⟩
  sink := some sink

def rejectedPlan : Plan :=
  Assembly.hookPlan .fragment "M"

def rejectedParts : Assembly.Parts { gles := true, prelude := [] } (ResourceTable.resolver {}) where
  fragments := []
  pieces := []
  resolved := .nil
  stands := by
    have hlines : Text.lines (Assembly.wrapped [] []).toList = [] := Text.lines_nil
    rw [hlines]
    exact .nil

/-- Accepts every text and marks it. -/
def accepting : Compiler (Table String) :=
  { rejecting .table with optimizer := some ⟨fun text _ => .ok ("// checked\r\n" ++ text)⟩ }

theorem assemble_account_rejecting :
    ((rejecting refusing).assemble rejectedPlan).run .empty =
      (.error (.compile (.optimizerFailed "hook" .fullbright .fragment "no")), .empty) ∧
    ((rejecting .table).assemble rejectedPlan).run .empty =
      (.error (.compile (.optimizerFailed "hook" .fullbright .fragment "no")),
        (Table.empty.insert (rejectedPlan.artifact .pre)
          (rejectedPlan.defineBlock true ++ "M")).insert rejectedPlan.log "no") ∧
    (((rejecting .table).assemble rejectedPlan).run .empty).2.get? (rejectedPlan.artifact .post) =
      none ∧
    ∃ text, text = "precision lowp float;\r\n" ++
        ("// checked\r\n" ++ (rejectedPlan.defineBlock true ++ "M")) ∧
      (accepting.assemble rejectedPlan).run .empty =
        (.ok text, (Table.empty.insert (rejectedPlan.artifact .pre)
          (rejectedPlan.defineBlock true ++ "M")).insert (rejectedPlan.artifact .post) text) ∧
      ((accepting.assemble rejectedPlan).run .empty).2.get? rejectedPlan.log = none := by
  obtain ⟨-, -, haccount⟩ := assemble_account { gles := true, prelude := [] }
    (ResourceTable.resolver {}) (some ⟨fun _ _ => .error "no"⟩) rejectedPlan
  obtain ⟨-, -, haccepted⟩ := assemble_account { gles := true, prelude := [] }
    (ResourceTable.resolver {}) accepting.optimizer rejectedPlan
  have htext : rejectedParts.text rejectedPlan = rejectedPlan.defineBlock true ++ "M" := by
    rw [Assembly.Parts.text_eq_append]
    exact congrArg _ (by decide +kernel)
  have hsource := rejectedParts.source_eq_text rejectedPlan
  rw [htext] at hsource
  have hcourse := haccount _ _ (.rejected hsource rfl rfl rfl)
  obtain ⟨hrefused, -⟩ := hcourse _ (rejecting refusing) .empty rfl rfl rfl
  obtain ⟨htaken, hkept⟩ := hcourse _ (rejecting .table) .empty rfl rfl rfl
  obtain ⟨hchecked, hkept'⟩ := haccepted _ _ (.accepted hsource rfl rfl rfl) _ accepting .empty
    rfl rfl rfl
  refine ⟨hrefused, htaken, ?_, _, rfl, hchecked, ?_⟩
  · rw [hkept .table Table.get? rfl ArtifactSink.keeps_table]
    decide +kernel
  · rw [hkept' .table Table.get? rfl ArtifactSink.keeps_table]
    decide +kernel

end Compiler

end MaterialGraph
