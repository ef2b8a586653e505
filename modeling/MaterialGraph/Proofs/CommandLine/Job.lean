import MaterialGraph.CommandLine.Run
import MaterialGraph.Proofs.Assembly.Names
import MaterialGraph.Proofs.FileTree
import MaterialGraph.Proofs.Shader.Passes

/-!
A run of the command line in two halves: reading the inputs gives a job, and
doing the job writes files. The files of a job are named for the shader, each
with an ending of its own, so no two of them share a location in any tree.
-/

namespace MaterialGraph

open Text (dotted isWord isWord_append isWord_toString)

theorem Pass.isWord_name (pass : Pass) : isWord pass.name := by
  cases pass with
  | diffuse light => exact isWord_append.2 ⟨by decide, isWord_toString _⟩
  | diffuseSpecular light => exact isWord_append.2 ⟨by decide, isWord_toString _⟩
  | default | fullbright | preview => decide

namespace Action

variable {σ α β : Type}

theorem ofOutcome_bind (r : Outcome α) (k : α → Outcome β) :
    (ofOutcome (r >>= k) : Action σ β) = ofOutcome r >>= fun a => ofOutcome (k a) := by
  cases r <;> rfl

/-- Doing something for every element of a list leaves nothing to pass on. -/
theorem forIn_eq_forM (l : List α) (f : α → Action σ PUnit) :
    (forIn l PUnit.unit fun a _ => do
      f a
      pure (ForInStep.yield PUnit.unit)) = l.forM f := by
  induction l with
  | nil => rfl
  | cons a l ih =>
    rw [List.forIn_cons, bind_assoc]
    simp only [pure_bind, ih]
    rfl

end Action

namespace CommandLine

/-- What a run does once it has read its inputs. -/
structure Job where
  dir : String
  /-- Where the resources lie. -/
  root : String
  config : Config
  optimizer : Option Optimizer
  material : Material
  shader : Shader

namespace Job

def compiler (j : Job) : Compiler FileTree :=
  CommandLine.compiler j.config j.root j.optimizer

/-- Reads everything that a run is given. -/
def prepare (optimizer : Option Optimizer) (o : Options) (t : FileTree) : Outcome Job :=
  match o.shader with
  | none => .error (.fault (.shaderRequired usage))
  | some path => do
    let config ← readConfig t o
    let material ← readMaterial t o
    let document ← readDocument t path
    let root := resourceRoot o path
    let resolver := FileTree.resolver root t
    let s ← (Shader.load resolver config.limits document material.variant .empty).1
    .ok ⟨o.outputDir.getD ".", root, config, optimizer, material, s⟩

/-- Writes the text files of a pass. -/
def write (j : Job) (p : ShaderPass) : Action FileTree Unit :=
  writePass j.compiler j.shader j.material j.dir p.graph.pass

def perform (j : Job) (t : FileTree) : Action FileTree Unit := do
  set (← Action.ofOutcome (t.ensure j.dir))
  j.shader.passes.forM j.write
  let cooked ← j.compiler.cook j.shader j.material
  writeFile j.dir (j.shader.name ++ ".cooked") cooked

end Job

theorem run_eq (optimizer : Option Optimizer) (o : Options) :
    run optimizer o = (get >>= fun t =>
      Action.ofOutcome (Job.prepare optimizer o t) >>= fun j => j.perform t) := by
  unfold run Job.prepare
  refine bind_congr fun t => ?_
  cases o.shader with
  | none => rfl
  | some path =>
    simp only [Action.ofOutcome_bind, bind_assoc, Action.forIn_eq_forM]
    rfl

/-- The files that a run may write. -/
inductive Product
  | text (pass : Pass) (stage : Stage)
  | cooked
  | artifact (pass : Pass) (side : ArtifactSide) (stage : Stage)
deriving DecidableEq

namespace Product

/-- How the name of a product goes on after the name of the shader. -/
def ending : Product → String
  | text pass stage => "." ++ pass.name ++ "." ++ stage.tag ++ ".glsl"
  | cooked => ".cooked"
  | artifact pass side stage =>
    "." ++ toString pass.index ++ "." ++ side.tag ++ "." ++ stage.tag ++ ".glsl"

def ofStage (pass : Pass) (stage : Stage) : List Product :=
  [text pass stage, artifact pass .pre stage, artifact pass .post stage]

def all : List Product :=
  cooked :: Pass.all.flatMap fun pass => ofStage pass .vertex ++ ofStage pass .fragment

theorem text_mem {pass : Pass} (h : pass ∈ Pass.all) (stage : Stage) :
    text pass stage ∈ all := by
  refine List.mem_cons_of_mem _ (List.mem_flatMap.2 ⟨pass, h, ?_⟩)
  cases stage <;> simp [ofStage]

theorem artifact_mem {pass : Pass} (h : pass ∈ Pass.all) (side : ArtifactSide) (stage : Stage) :
    artifact pass side stage ∈ all := by
  refine List.mem_cons_of_mem _ (List.mem_flatMap.2 ⟨pass, h, ?_⟩)
  cases side <;> cases stage <;> simp [ofStage]

/-- The words of an ending, each behind a dot. -/
def words : Product → List String
  | text pass stage => [pass.name, stage.tag, "glsl"]
  | cooked => ["cooked"]
  | artifact pass side stage => artifactWords pass side stage

variable {x y : Product}

theorem isWord_words (x : Product) : ∀ word ∈ x.words, isWord word := by
  cases x with
  | text pass stage =>
    simp only [words, List.forall_mem_cons, pass.isWord_name, stage.isWord_tag]
    decide
  | cooked => simp only [words]; decide
  | artifact pass side stage => exact isWord_artifactWords pass side stage

theorem ending_eq_dotted (x : Product) : x.ending = dotted "" x.words := by
  have hglsl : ".glsl" = "." ++ "glsl" := by decide
  cases x with
  | text pass stage =>
    rw [ending, hglsl, ← String.append_assoc]
    rfl
  | cooked => rfl
  | artifact pass side stage =>
    rw [ending, hglsl, ← String.append_assoc]
    rfl

/-- Whether the pass of a product has a number of its own. -/
def Counted : Product → Prop
  | text pass _ => pass ∈ Pass.all
  | cooked => True
  | artifact pass _ _ => pass ∈ Pass.all

theorem counted_of_mem (h : x ∈ all) : x.Counted := by
  rcases List.mem_cons.1 h with rfl | h
  · trivial
  · obtain ⟨pass, hpass, h⟩ := List.mem_flatMap.1 h
    simp only [ofStage, List.mem_append, List.mem_cons, List.not_mem_nil, or_false] at h
    rcases h with (rfl | rfl | rfl) | (rfl | rfl | rfl) <;> exact hpass

theorem words_inj (hx : x.Counted) (hy : y.Counted) (h : x.words = y.words) : x = y := by
  cases x with
  | text pass stage =>
    cases y with
    | text pass' stage' =>
      obtain ⟨hname, htag⟩ : pass.name = pass'.name ∧ stage.tag = stage'.tag := by
        simpa [words] using h
      rw [(Pass.name_inj hx hy).1 hname, Stage.tag_inj.1 htag]
    | cooked => simp [words] at h
    | artifact pass' side' stage' => simp [words, artifactWords] at h
  | cooked =>
    cases y with
    | text pass' stage' => simp [words] at h
    | cooked => rfl
    | artifact pass' side' stage' => simp [words, artifactWords] at h
  | artifact pass side stage =>
    cases y with
    | text pass' stage' => simp [words, artifactWords] at h
    | cooked => simp [words, artifactWords] at h
    | artifact pass' side' stage' =>
      obtain ⟨hindex, hside, hstage⟩ := artifactWords_inj.1 h
      rw [(Pass.index_inj hx hy).1 hindex, hside, hstage]

theorem ending_inj (hx : x ∈ all) (hy : y ∈ all) (h : x.ending = y.ending) : x = y := by
  rw [ending_eq_dotted, ending_eq_dotted,
    Text.dotted_right_inj x.isWord_words y.isWord_words] at h
  exact words_inj (counted_of_mem hx) (counted_of_mem hy) h

theorem slash_notMem_ending (x : Product) : '/' ∉ x.ending.toList := by
  rw [ending_eq_dotted]
  exact Text.notMem_dotted rfl (by decide) List.not_mem_nil x.isWord_words

theorem length_ending (x : Product) : 2 < x.ending.length := by
  have hglsl : ".glsl".length = 5 := by decide
  cases x with
  | text pass stage =>
    rw [ending, String.length_append, hglsl]
    omega
  | cooked => decide
  | artifact pass side stage =>
    rw [ending, String.length_append, hglsl]
    omega

/-- Whether a product is of a pass that the shader has. -/
def Belongs (s : Shader) : Product → Prop
  | text pass _ => (s.pass? pass).isSome
  | cooked => True
  | artifact pass _ _ => (s.pass? pass).isSome

end Product

theorem textFile_eq (shader : String) (pass : Pass) (stage : Stage) :
    textFile shader pass stage = shader ++ (Product.text pass stage).ending := by
  simp only [textFile, Product.ending, String.append_assoc]

theorem artifactName_eq (shader : String) (pass : Pass) (side : ArtifactSide) (stage : Stage) :
    artifactName shader pass side stage =
      shader ++ (Product.artifact pass side stage).ending := by
  simp only [artifactName, Product.ending, String.append_assoc]

namespace Job

variable {j : Job} {t : FileTree} {x y : Product} {path : String} {location : List String}
  {products products' : Product → Prop}

/-- Where a product goes. Artifacts are written where there is an optimizer and a
directory for them. -/
def path? (j : Job) (x : Product) : Option String :=
  match x with
  | .text .. | .cooked => some (Path.join j.dir (j.shader.name ++ x.ending))
  | .artifact .. =>
    if j.compiler.optimizer?.isSome then
      j.config.artifactDir.map fun dir => Path.join dir (j.shader.name ++ x.ending)
    else none

/-- The paths of some products. -/
def paths (j : Job) (products : Product → Prop) (path : String) : Prop :=
  ∃ x ∈ Product.all, products x ∧ j.path? x = some path

/-- The paths that the job writes. -/
def Written (j : Job) : String → Prop :=
  j.paths (Product.Belongs j.shader)

theorem paths.mono (h : j.paths products path) (hsub : ∀ x, products x → products' x) :
    j.paths products' path := by
  obtain ⟨x, hx, hproduct, hpath⟩ := h
  exact ⟨x, hx, hsub x hproduct, hpath⟩

theorem lastPart_path? (h : j.path? x = some path) :
    Path.lastPart path = Path.lastPart j.shader.name ++ x.ending := by
  have hjoin : ∃ dir, path = Path.join dir (j.shader.name ++ x.ending) := by
    unfold path? at h
    split at h
    · exact ⟨_, (Option.some.inj h).symm⟩
    · exact ⟨_, (Option.some.inj h).symm⟩
    · split_ifs at h
      obtain ⟨dir, -, rfl⟩ := Option.map_eq_some_iff.1 h
      exact ⟨dir, rfl⟩
  obtain ⟨dir, rfl⟩ := hjoin
  rw [Path.lastPart_join, Path.lastPart_append x.slash_notMem_ending]

theorem names_lastPart (h : j.path? x = some path) :
    FileTree.Descends (Path.lastPart path) := by
  have hlength : 2 < (Path.lastPart path).length := by
    rw [lastPart_path? h, String.length_append]
    exact Nat.lt_of_lt_of_le x.length_ending (Nat.le_add_left _ _)
  refine ⟨?_, ?_, ?_⟩ <;> intro heq <;> rw [heq] at hlength <;> revert hlength <;> decide

/-- Products that share a location are the same. -/
theorem eq_of_locate {path' : String} (hx : x ∈ Product.all) (hy : y ∈ Product.all)
    (hpath : j.path? x = some path) (hpath' : j.path? y = some path')
    (h : t.locate path = .ok location) (h' : t.locate path' = .ok location) : x = y := by
  have hlast := FileTree.getLast?_locate (names_lastPart hpath) h
  have hlast' := FileTree.getLast?_locate (names_lastPart hpath') h'
  rw [hlast, Option.some.injEq, lastPart_path? hpath, lastPart_path? hpath'] at hlast'
  exact Product.ending_inj hx hy ((String.append_right_inj _).1 hlast')

theorem not_leads (hx : x ∈ Product.all) (hpath : j.path? x = some path)
    (h : t.locate path = .ok location) (hout : ¬products x) :
    ¬t.Leads (j.paths products) location := by
  rintro ⟨path', ⟨y, hy, hproduct, hpath'⟩, h'⟩
  rw [eq_of_locate hx hy hpath hpath' h h'] at hout
  exact hout hproduct

end Job

end CommandLine

end MaterialGraph
