import MaterialGraph.Proofs.CommandLine.Writes

/-!
The files of a run: two texts for every pass and the cooked shader. The passes are
compiled twice, once for their texts and once to be cooked. What is written in
between is read by neither, so both give the same. Main statement: after a run
that succeeds, the cooked shader lists the passes with the texts in their files.
-/

namespace MaterialGraph

def CompiledPass.text (q : CompiledPass) : Stage → String
  | .vertex => q.vertex
  | .fragment => q.fragment

namespace CommandLine

open MaterialGraph.Action

variable {j : Job} {t t' a b : FileTree} {p : ShaderPass}

namespace Job

section Loaded

variable {resolver : Resolver} {l : Limits} {d : Document} {v : Variant} {r r' : Registry}
  {answer : Pass → Outcome CompiledPass}
  (hload : (Shader.load resolver l d v).run r = (.ok j.shader, r'))

include hload

/-- Whether the files of a pass hold the texts that compiling it gives. -/
def Holds (j : Job) (answer : Pass → Outcome CompiledPass) (t : FileTree) (pass : Pass) : Prop :=
  ∃ q, answer pass = .ok q ∧ ∀ stage,
    t.file? (Path.join j.dir (textFile j.shader.name pass stage)) =
      some (Text.toBytes (q.text stage))

/-- The texts of a pass are in its files, where nothing later is written to them. -/
theorem holds_of_write
    (hanswer : (j.compiler.compilePass j.shader p.graph.pass j.material).Repeats
      (j.Before (Product.Belongs j.shader) t') (answer p.graph.pass))
    (hp : p ∈ j.shader.passes) (h : (j.write p).run a = (.ok (), b))
    (hb : ∀ stage, j.Before (j.others (.text p.graph.pass stage)) t' b) :
    j.Holds answer t' p.graph.pass := by
  obtain ⟨q, a₁, a₂, hcompile, hvertex, hfragment⟩ := write_eq_ok h
  have hmem := text_mem hload hp
  have hsome := isSome_of_mem hload hp
  have hout (x : Product) : ¬j.others x x := fun h => h.2 rfl
  have h₂ := (hb .vertex).of_write (hmem .fragment) ⟨hsome, by simp⟩ (path?_text ..) hfragment
  have h₁ := (h₂.mono fun _ h => h.1).of_write (hmem .vertex) hsome (path?_text ..) hvertex
  refine ⟨q, (hanswer hcompile h₁).2, fun stage => ?_⟩
  cases stage with
  | vertex =>
    exact h₂.file? (hmem .vertex) (hout _) (path?_text ..) (FileTree.later_write hvertex).2
  | fragment =>
    exact (hb .fragment).file? (hmem .fragment) (hout _) (path?_text ..)
      (FileTree.later_write hfragment).2

/-- Passes write to files of their own, so the texts of all of them stay. -/
theorem holds_of_writes (hsep : j.Separate t') (hanswer : ∀ pass,
      (j.compiler.compilePass j.shader pass j.material).Repeats
        (j.Before (Product.Belongs j.shader) t') (answer pass))
    {passes : List ShaderPass} (hsub : passes ⊆ j.shader.passes)
    (hnodup : (passes.map fun p => p.graph.pass).Nodup)
    (hb : ∀ p ∈ passes, ∀ stage, j.Before (j.others (.text p.graph.pass stage)) t' b) :
    ∀ {a}, (passes.forM j.write).run a = (.ok (), b) →
      ∀ p ∈ passes, j.Holds answer t' p.graph.pass := by
  induction passes with
  | nil => exact fun _ p hp => absurd hp List.not_mem_nil
  | cons p rest ih =>
    intro a h
    obtain ⟨_, a₁, hwrite, hwrites⟩ := Loading.run_bind_eq_ok h
    rw [List.cons_subset] at hsub
    rw [List.map_cons, List.nodup_cons] at hnodup
    rw [List.forall_mem_cons] at hb
    have h₁ (stage : Stage) : j.Before (j.others (.text p.graph.pass stage)) t' a₁ := by
      refine before_of_writes hload hsep (allows_others_text ..) hsub.2 (fun p' hp' stage' => ?_)
        hwrites (hb.1 stage)
      refine ⟨isSome_of_mem hload (hsub.2 hp'), fun heq => hnodup.1 ?_⟩
      exact List.mem_map.2 ⟨p', hp', (Product.text.inj heq).1⟩
    rw [List.forall_mem_cons]
    exact ⟨holds_of_write hload (hanswer _) hsub.1 hwrite h₁, ih hsub.2 hnodup.2 hb.2 hwrites⟩

/-- Compiling the passes for their texts and for the cooked shader gives the same. -/
theorem answers_of_perform (hsep : j.Separate t') (h : (j.perform t).run t = (.ok (), t')) :
    ∃ answer bytes, (∀ pass, (j.shader.pass? pass).isSome → j.Holds answer t' pass) ∧
      t'.file? (Path.join j.dir (j.shader.name ++ ".cooked")) = some bytes ∧
      (j.shader.cookedPasses.mapM (fun pass => answer pass >>= fun q => q.record pass) >>=
        Cooked.encode Cooked.textBackend) = .ok bytes ∧
      j.Before (Product.Belongs j.shader) t' t := by
  obtain ⟨t₁, t₂, t₃, bytes, hensure, hwrites, hcook, hcooked⟩ := perform_eq_ok h
  choose answer hanswer using repeatable_compilePass hload hsep (allows_belongs j)
  have hlast (products : Product → Prop) (hproduct : products .cooked) :
      j.Before products t' t₃ :=
    .of_write (.refl _ _) List.mem_cons_self hproduct (path?_cooked j) hcooked
  have hwritten (products : Product → Prop) (hallows : j.Allows products)
      (hproduct : products .cooked) : j.Before products t' t₂ :=
    before_of_cook hload hsep hallows hcook (hlast products hproduct)
  have hholds := holds_of_writes hload hsep hanswer (List.Subset.refl _)
    ((Shader.sublist_of_load hload).nodup Pass.nodup_all)
    (fun p _ stage => hwritten _ (allows_others_text ..) ⟨trivial, Product.noConfusion⟩) hwrites
  refine ⟨answer, bytes, fun pass hpass => ?_, (FileTree.later_write hcooked).2, ?_, ?_⟩
  · obtain ⟨p, hp, rfl⟩ := List.mem_map.1 ((Shader.isSome_pass?_iff hload).1 hpass)
    exact hholds p hp
  · exact (Compiler.repeats_cook hanswer hcook (hlast _ trivial)).2
  · have hbelongs := allows_belongs j
    have h₁ := before_of_writes hload hsep hbelongs (List.Subset.refl _)
      (fun p hp _ => isSome_of_mem hload hp) hwrites (hwritten _ hbelongs trivial)
    exact h₁.of_ensure hensure

end Loaded

/-- What is there when a job is done. -/
structure Done (j : Job) (t t' : FileTree) : Prop where
  /-- Every other file is as it was, and no other file is new. -/
  kept : ∀ location, ¬t'.Leads j.Written location → ∀ bytes,
    (t'.entry? location = some (.file bytes) ↔ t.entry? location = some (.file bytes))
  /-- Every pass has a file for each stage. -/
  texts : ∀ pass, (j.shader.pass? pass).isSome → ∀ stage, ∃ text,
    t'.file? (Path.join j.dir (textFile j.shader.name pass stage)) = some (Text.toBytes text)
  /-- The cooked shader lists the passes but the preview, in index order and with the
  texts in their files. -/
  cooked : ∃ bytes records,
    t'.file? (Path.join j.dir (j.shader.name ++ ".cooked")) = some bytes ∧
    Cooked.decode bytes = .ok (Cooked.textBackend, records) ∧
    (records.map CookedPass.pass).Pairwise (fun p q => p.index < q.index) ∧
    (∀ pass, pass ∈ records.map CookedPass.pass ↔
      (j.shader.pass? pass).isSome ∧ pass ≠ .preview) ∧
    ∀ k ∈ records,
      t'.file? (Path.join j.dir (textFile j.shader.name k.pass .vertex)) =
        some (Text.toBytes k.vertex) ∧
      t'.file? (Path.join j.dir (textFile j.shader.name k.pass .fragment)) =
        some (Text.toBytes k.fragment)

theorem done_of_perform {resolver : Resolver} {l : Limits} {d : Document} {v : Variant}
    {r r' : Registry} (hload : (Shader.load resolver l d v).run r = (.ok j.shader, r'))
    (hsep : j.Separate t') (h : (j.perform t).run t = (.ok (), t')) : j.Done t t' := by
  obtain ⟨answer, bytes, hholds, hfile, hcooked, hbefore⟩ := answers_of_perform hload hsep h
  obtain ⟨records, hdecode, hpasses, hrecords⟩ := Compiler.decode_cooked hload hcooked
  refine ⟨fun location hout bytes => hbefore.file location bytes hout, fun pass hpass stage => ?_,
    bytes, records, hfile, hdecode, ?_, fun pass => ?_, fun k hk => ?_⟩
  · obtain ⟨q, -, hq⟩ := hholds pass hpass
    exact ⟨q.text stage, hq stage⟩
  · rw [hpasses]
    exact Pass.all_ascending.sublist (Shader.sublist_cookedPasses hload)
  · rw [hpasses, Shader.mem_cookedPasses hload]
  · have hk' : k.pass ∈ j.shader.cookedPasses := hpasses ▸ List.mem_map_of_mem hk
    obtain ⟨q, hq, hfiles⟩ := hholds k.pass ((Shader.mem_cookedPasses hload).1 hk').1
    obtain ⟨q', hq', hrecord⟩ := hrecords k hk
    cases hq.symm.trans hq'
    obtain ⟨block, -, heq⟩ := CompiledPass.record_eq_ok_iff.1 hrecord
    have hvertex : k.vertex = q.vertex := by rw [heq]
    have hfragment : k.fragment = q.fragment := by rw [heq]
    rw [hvertex, hfragment]
    exact ⟨hfiles .vertex, hfiles .fragment⟩

/-- The shader of a job has been loaded. -/
theorem load_of_prepare {optimizer : Option Optimizer} {o : Options}
    (h : prepare optimizer o t = .ok j) : ∃ resolver l d v r,
    (Shader.load resolver l d v).run .empty = (.ok j.shader, r) := by
  unfold prepare at h
  split at h
  · cases h
  · obtain ⟨config, -, h⟩ := Except.bind_eq_ok_iff.1 h
    obtain ⟨material, -, h⟩ := Except.bind_eq_ok_iff.1 h
    obtain ⟨document, -, h⟩ := Except.bind_eq_ok_iff.1 h
    obtain ⟨s, hs, h⟩ := Except.bind_eq_ok_iff.1 h
    cases h
    exact ⟨_, _, document, material.variant, _, Prod.ext hs rfl⟩

end Job

/-- A run that succeeds, and whose files are no resources that it compiles from, leaves
the texts of every pass and a cooked shader with the same texts, and no other files but
artifacts. -/
theorem outputs_agree {optimizer : Option Optimizer} {o : Options}
    (h : (run optimizer o).run t = (.ok (), t'))
    (hsep : ∀ j, Job.prepare optimizer o t = .ok j → j.Separate t') :
    ∃ j, Job.prepare optimizer o t = .ok j ∧ j.Done t t' := by
  rw [run_eq] at h
  obtain ⟨_, _, hget, h⟩ := Loading.run_bind_eq_ok h
  cases hget
  obtain ⟨j, _, hprepare, h⟩ := Loading.run_bind_eq_ok h
  cases congrArg Prod.snd hprepare
  have hj : Job.prepare optimizer o t = .ok j := congrArg Prod.fst hprepare
  obtain ⟨resolver, l, d, v, r, hload⟩ := Job.load_of_prepare hj
  exact ⟨j, hj, Job.done_of_perform hload (hsep j hj) h⟩

section Lit

open Shader Compiler

/-- Reads as the document `Shader.lit`. -/
def litText : String :=
  (Json.object [(some "name", .text "lit"), (some "passes", .object [(some "Fullbright",
    .object [(some "color", .object [(some "source", .text "light_vec"),
      (some "index", .int 1)])])])]).render

def litTree : FileTree where
  working := ["w"]
  entries :=
    [(["w"], .directory), (["w", "lit.json"], .file (Text.toBytes litText)),
      (["w", "Common.glsl"], .file []), (["w", "Shader.glsl"], .file [])]

def litOptions : Options where
  shader := some "lit.json"
  outputDir := some "out"

def litJob : Job where
  dir := "out"
  root := ""
  config := {}
  optimizer := blank.optimizer
  material := {}
  shader := litShader

theorem prepare_lit : Job.prepare blank.optimizer litOptions litTree = .ok litJob := by
  have hdocument : readDocument litTree "lit.json" = .ok lit := by decide +kernel
  have hload : (Shader.load (FileTree.resolver "" litTree) {} lit {} .empty).1 =
      .ok litShader := by
    rw [load_of_no_nodes rfl (ResourceTable.resolver {})]
    exact congrArg Prod.fst load_lit
  refine Except.bind_eq_ok_iff.2 ⟨{}, rfl, Except.bind_eq_ok_iff.2 ⟨{}, rfl, ?_⟩⟩
  refine Except.bind_eq_ok_iff.2 ⟨lit, hdocument, ?_⟩
  exact Except.bind_eq_ok_iff.2 ⟨litShader, hload, rfl⟩

/-- Whether the fragments of the default prelude are there and empty. -/
def Plain (texts : Resolver) : Prop :=
  ∀ name ∈ ({} : Config).prelude, texts.resolve .fragment name = .ok (some "")

def litPlan (materialText : String) (stage : Stage) : Plan :=
  plan litShader litPass {} litPass.mapping materialText stage

theorem reads_plain {texts : Resolver} (h : Plain texts) {materialText : String} {stage : Stage}
    {name : String} (hread : Assembly.Reads {} texts (litPlan materialText stage) name) :
    name ∈ ({} : Config).prelude := by
  obtain hname | ⟨fragments, hfragments, line, hline, htarget, -⟩ := hread
  · exact hname
  · have hprelude : Assembly.prelude texts ({} : Config).prelude =
        .ok "// Common.glsl\r\n\r\n// Shader.glsl\r\n\r\n" := by
      have hcommon := h "Common.glsl" (by decide)
      have hshader := h "Shader.glsl" (by decide)
      simp only [Assembly.prelude, hcommon, hshader, bind, Except.bind]
      rfl
    cases hprelude.symm.trans hfragments
    have hblock : ((litPlan materialText stage).defineBlock ({} : Config).gles).toList =
        ((litPlan "" stage).defines false).flatMap fun d => d.render.toList := by
      rw [Plan.defineBlock, String.toList_join, List.flatMap_map]
      rfl
    rw [String.toList_append, hblock] at hline
    have hnone : ∀ line ∈ Text.lines (((litPlan "" stage).defines false).flatMap
        (fun d => d.render.toList) ++
          "// Common.glsl\r\n\r\n// Shader.glsl\r\n\r\n".toList),
        Include.target? line = none := by
      cases stage <;> decide +kernel
    cases (hnone line hline).symm.trans htarget

theorem reads_lit {texts : Resolver} (h : Plain texts) {kind : ResourceKind} {name : String}
    (hread : litJob.compiler.Reads litShader {} texts kind name) :
    kind = .fragment ∧ name ∈ ({} : Config).prelude := by
  cases hread with
  | code hname => exact absurd hname List.not_mem_nil
  | fragment hp hm hread =>
    obtain rfl := List.mem_singleton.1 (mem_of_pass? hp)
    obtain rfl := pass_of_pass? hp
    cases hm
    exact ⟨rfl, reads_plain h hread⟩

theorem run_compilePass_lit {t : FileTree} (h : Plain (FileTree.resolver "" t)) :
    (litJob.compiler.compilePass litShader .fullbright {}).run t = (.ok blankLit, t) := by
  have hassemble (materialText : String) (stage : Stage) :
      (litJob.compiler.assemble (litPlan materialText stage)).run t =
        (.ok "void main() {}", t) := by
    obtain ⟨text, htext⟩ := Assembly.source_ok_iff.2 fun name hread =>
      ⟨"", h name (reads_plain h hread)⟩
    exact Loading.run_bind_of_ok (run_ofOutcome htext t)
  refine (Loading.run_bind_of_ok (a := litPass) rfl).trans ?_
  refine (Loading.run_bind_of_ok (a := (litPass.mapping, TexCoordTable.mk [])) rfl).trans ?_
  refine (Loading.run_bind_of_ok (a := t) rfl).trans ?_
  refine (Loading.run_bind_of_ok (a := "") rfl).trans ?_
  have hbody : litShader.body {} .fullbright {} =
      .ok [.assign .color (.text (Accessor.text .lightVec 1))] := rfl
  refine (Loading.run_bind_of_ok (run_ofOutcome hbody t)).trans ?_
  refine (Loading.run_bind_of_ok (hassemble _ .vertex)).trans ?_
  exact Loading.run_bind_of_ok (hassemble _ .fragment)

def litEnsured : FileTree :=
  litTree.set ["w", "out"] .directory

def litWritten : FileTree :=
  let bytes := Text.toBytes "void main() {}"
  (litEnsured.set ["w", "out", "lit.Fullbright.vert.glsl"] (.file bytes)).set
    ["w", "out", "lit.Fullbright.frag.glsl"] (.file bytes)

theorem plain_litEnsured : Plain (FileTree.resolver "" litEnsured) := by
  unfold Plain
  decide +kernel

theorem plain_litWritten : Plain (FileTree.resolver "" litWritten) := by
  unfold Plain
  decide +kernel

theorem run_write_lit : (litJob.write litPass).run litEnsured = (.ok (), litWritten) := by
  have hcompile := run_compilePass_lit plain_litEnsured
  refine (Loading.run_bind_of_ok (run_during_iff.2 hcompile)).trans ?_
  have hvertex : litEnsured.write (Path.join "out" (textFile "lit" .fullbright .vertex))
      (Text.toBytes "void main() {}") = .ok (litEnsured.set
        ["w", "out", "lit.Fullbright.vert.glsl"] (.file (Text.toBytes "void main() {}"))) := by
    decide +kernel
  refine (Loading.run_bind_of_ok (run_writeFile_iff.2 hvertex)).trans ?_
  refine run_writeFile_iff.2 ?_
  decide +kernel

theorem run_cook_lit : ∃ bytes,
    (litJob.compiler.cook litShader {}).run litWritten = (.ok bytes, litWritten) := by
  have hfits : blankLit.Fits := ⟨rfl, by decide, by decide⟩
  have hmem : Pass.fullbright ∈ Pass.all := by decide
  obtain ⟨k, hk, hencode⟩ := (CompiledPass.fits_iff hmem).1 hfits
  have hrecord : (litJob.compiler.cookPass litShader {} .fullbright).run litWritten =
      (.ok k, litWritten) := by
    obtain ⟨block, hblock, rfl⟩ := CompiledPass.record_eq_ok_iff.1 hk
    refine (Loading.run_bind_of_ok (run_compilePass_lit plain_litWritten)).trans ?_
    exact Loading.run_bind_of_ok (run_ofOutcome (Except.mapError_eq_ok_iff.2 hblock) litWritten)
  have hrecords : ([Pass.fullbright].mapM (litJob.compiler.cookPass litShader {})).run
      litWritten = (.ok [k], litWritten) := by
    rw [List.mapM_cons, List.mapM_nil]
    exact Loading.run_bind_of_ok hrecord
  obtain ⟨bytes, hbytes⟩ := Cooked.exists_encode Cooked.textBackend (Nat.le_of_ble_eq_true rfl)
    (List.forall_mem_singleton.2 hencode)
  exact ⟨bytes, (Loading.run_bind_of_ok hrecords).trans (run_ofOutcome hbytes litWritten)⟩

/-- Writing the cooked shader leaves the fragments as they were. -/
theorem plain_litCooked (bytes : List UInt8) :
    Plain (FileTree.resolver "" (litWritten.set ["w", "out", "lit.cooked"] (.file bytes))) := by
  have hlater := FileTree.later_set_file
    (show litWritten.entry? ["w", "out", "lit.cooked"] ≠ some .directory by decide +kernel) bytes
  intro name hname
  have hlast : ∀ name ∈ ({} : Config).prelude,
      FileTree.Descends (Path.lastPart (Path.join "" name)) ∧
        some (Path.lastPart (Path.join "" name)) ≠ some "lit.cooked" := by
    unfold FileTree.Descends
    decide +kernel
  obtain ⟨hnames, hne⟩ := hlast name hname
  have hold := plain_litWritten name hname
  rw [FileTree.resolve_eq_some_iff] at hold ⊢
  obtain ⟨old, hfile, htext⟩ := Option.bind_eq_some_iff.1 hold
  refine Option.bind_eq_some_iff.2 ⟨old, hlater.file?_eq hfile ?_, htext⟩
  rintro l hlocate rfl
  exact hne (FileTree.getLast?_locate hnames hlocate).symm

theorem run_perform_lit : ∃ bytes, (litJob.perform litTree).run litTree =
    (.ok (), litWritten.set ["w", "out", "lit.cooked"] (.file bytes)) := by
  have hensure : litTree.ensure "out" = .ok litEnsured := by decide +kernel
  have hwrites : (litShader.passes.forM litJob.write).run litEnsured = (.ok (), litWritten) := by
    change (litJob.write litPass >>= fun _ => pure ()).run litEnsured = _
    exact Loading.run_bind_of_ok run_write_lit
  obtain ⟨bytes, hcook⟩ := run_cook_lit
  have hlocate : litWritten.locate (Path.join litJob.dir (litShader.name ++ ".cooked")) =
      .ok ["w", "out", "lit.cooked"] := by decide +kernel
  have hwrite := FileTree.write_eq_ok hlocate (by decide +kernel) bytes
  refine ⟨bytes, (Loading.run_bind_of_ok (run_ofOutcome hensure litTree)).trans ?_⟩
  refine (Loading.run_bind_of_ok (a := ()) rfl).trans ?_
  refine (Loading.run_bind_of_ok hwrites).trans ?_
  exact (Loading.run_bind_of_ok hcook).trans (run_writeFile_iff.2 hwrite)

theorem separate_lit {t : FileTree} (h : Plain (FileTree.resolver "" t)) : litJob.Separate t := by
  have hall : ∀ name ∈ ({} : Config).prelude, FileTree.Descends (Path.lastPart name) ∧
      ∀ x ∈ Product.all, Path.lastPart name ≠ Path.lastPart "lit" ++ x.ending := by
    unfold FileTree.Descends
    decide +kernel
  refine Job.separate_of_lastPart fun kind name hread => ?_
  obtain ⟨rfl, hname⟩ := reads_lit h hread
  exact hall name hname

theorem outputs_agree_lit : ∃ t', (run blank.optimizer litOptions).run litTree = (.ok (), t') ∧
    litJob.Done litTree t' := by
  obtain ⟨bytes, hperform⟩ := run_perform_lit
  have hrun : (run blank.optimizer litOptions).run litTree =
      (.ok (), litWritten.set ["w", "out", "lit.cooked"] (.file bytes)) := by
    rw [run_eq]
    exact (Loading.run_bind_of_ok (run_ofOutcome prepare_lit litTree)).trans hperform
  obtain ⟨j, hj, hdone⟩ := outputs_agree hrun fun j hj => by
    cases hj.symm.trans prepare_lit
    exact separate_lit (plain_litCooked bytes)
  cases hj.symm.trans prepare_lit
  exact ⟨_, hrun, hdone⟩

end Lit

end CommandLine

end MaterialGraph
