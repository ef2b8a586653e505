import MaterialGraph.Assembly.Artifact
import MaterialGraph.Proofs.Text.Dotted

/-!
The names of artifacts and logs. The name of a shader may have dots and digits, but what
follows it are words, each behind a dot, so names are read from their end.
-/

namespace MaterialGraph

open Text (dotted isWord isWord_toString)

theorem Stage.tag_inj {s s' : Stage} : s.tag = s'.tag ↔ s = s' := by
  cases s <;> cases s' <;> decide

theorem Stage.isWord_tag (s : Stage) : isWord s.tag := by
  cases s <;> decide

theorem ArtifactSide.tag_inj {s s' : ArtifactSide} : s.tag = s'.tag ↔ s = s' := by
  cases s <;> cases s' <;> decide

theorem ArtifactSide.isWord_tag (s : ArtifactSide) : isWord s.tag := by
  cases s <;> decide

/-- The words in the name of an artifact. -/
def artifactWords (pass : Pass) (side : ArtifactSide) (stage : Stage) : List String :=
  [toString pass.index, side.tag, stage.tag, "glsl"]

/-- The words in the name of a log. -/
def logWords (pass : Pass) (stage : Stage) : List String :=
  [toString pass.index, stage.tag, "log"]

variable {shader shader' : String} {pass pass' : Pass} {side side' : ArtifactSide}
  {stage stage' : Stage}

theorem isWord_artifactWords (pass : Pass) (side : ArtifactSide) (stage : Stage) :
    ∀ word ∈ artifactWords pass side stage, isWord word := by
  simp only [artifactWords, List.forall_mem_cons, isWord_toString, side.isWord_tag,
    stage.isWord_tag]
  decide

theorem isWord_logWords (pass : Pass) (stage : Stage) :
    ∀ word ∈ logWords pass stage, isWord word := by
  simp only [logWords, List.forall_mem_cons, isWord_toString, stage.isWord_tag]
  decide

theorem artifactWords_inj : artifactWords pass side stage = artifactWords pass' side' stage' ↔
    pass.index = pass'.index ∧ side = side' ∧ stage = stage' := by
  simp only [artifactWords, List.cons.injEq, toString_inj, ArtifactSide.tag_inj, Stage.tag_inj,
    and_true]

theorem logWords_inj : logWords pass stage = logWords pass' stage' ↔
    pass.index = pass'.index ∧ stage = stage' := by
  simp only [logWords, List.cons.injEq, toString_inj, Stage.tag_inj, and_true]

theorem artifactName_eq_dotted :
    artifactName shader pass side stage = dotted shader (artifactWords pass side stage) := by
  have hglsl : ".glsl" = "." ++ "glsl" := by decide
  rw [artifactName, hglsl, ← String.append_assoc]
  rfl

theorem logName_eq_dotted : logName shader pass stage = dotted shader (logWords pass stage) := by
  have hlog : ".log" = "." ++ "log" := by decide
  rw [logName, hlog, ← String.append_assoc]
  rfl

theorem artifactName_inj :
    artifactName shader pass side stage = artifactName shader' pass' side' stage' ↔
      shader = shader' ∧ pass.index = pass'.index ∧ side = side' ∧ stage = stage' := by
  rw [artifactName_eq_dotted, artifactName_eq_dotted,
    Text.dotted_inj (isWord_artifactWords pass side stage)
      (isWord_artifactWords pass' side' stage') rfl, artifactWords_inj]

theorem logName_inj :
    logName shader pass stage = logName shader' pass' stage' ↔
      shader = shader' ∧ pass.index = pass'.index ∧ stage = stage' := by
  rw [logName_eq_dotted, logName_eq_dotted,
    Text.dotted_inj (isWord_logWords pass stage) (isWord_logWords pass' stage') rfl,
    logWords_inj]

/-- The last word of a name tells whether it is an artifact or a log. -/
theorem artifactName_ne_logName :
    artifactName shader pass side stage ≠ logName shader' pass' stage' := by
  intro h
  rw [artifactName_eq_dotted, logName_eq_dotted] at h
  have hglsl : ∀ word ∈ ["glsl"], isWord word := by decide
  have hlog : ∀ word ∈ ["log"], isWord word := by decide
  have hlast : dotted (dotted shader [toString pass.index, side.tag, stage.tag]) ["glsl"] =
      dotted (dotted shader' [toString pass'.index, stage'.tag]) ["log"] := h
  exact absurd ((Text.dotted_inj hglsl hlog rfl).1 hlast).2 (by decide)

end MaterialGraph
