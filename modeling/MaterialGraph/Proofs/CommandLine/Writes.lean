import MaterialGraph.Proofs.CommandLine.Job
import MaterialGraph.Proofs.Shader.Reads
import MaterialGraph.Proofs.Settles

/-!
What a job writes on the way to a later tree. Each step of a job writes products of
its own, and where no product is a resource that compiling reads, all compilations
on the way have one answer.
-/

namespace MaterialGraph

namespace CommandLine

open MaterialGraph.Action

variable {j : Job} {t t' a b : FileTree} {x : Product} {products products' : Product → Prop}
  {path dir name : String} {bytes : List UInt8} {pass : Pass} {p : ShaderPass}

theorem run_during_iff {α : Type} {activity : String} {x : Action FileTree α} {v : α} :
    (Action.during activity x).run a = (.ok v, b) ↔ x.run a = (.ok v, b) := by
  change (Outcome.during activity (x.run a).1, (x.run a).2) = _ ↔ _
  rw [Prod.ext_iff, Prod.ext_iff, Outcome.during_eq_ok_iff]

theorem run_writeFile_iff : (writeFile dir name bytes).run a = (.ok (), b) ↔
    a.write (Path.join dir name) bytes = .ok b := by
  constructor
  · intro h
    obtain ⟨_, _, hget, h⟩ := Loading.run_bind_eq_ok h
    cases hget
    obtain ⟨t₁, _, hwrite, h⟩ := Loading.run_bind_eq_ok h
    cases h
    exact congrArg Prod.fst hwrite
  · intro h
    exact (Loading.run_bind_of_ok (a := a) rfl).trans (Loading.run_bind_of_ok (run_ofOutcome h a))

namespace Job

/-- Whether at most some products are written on the way from a tree to a later one. -/
def Before (j : Job) (products : Product → Prop) (t' t : FileTree) : Prop :=
  FileTree.Later (t'.Leads (j.paths products)) t t'

theorem Before.mono (h : j.Before products t' t) (hsub : ∀ x, products x → products' x) :
    j.Before products' t' t :=
  FileTree.Later.mono h fun _ hlead => hlead.mono fun _ hpath => hpath.mono hsub

theorem Before.of_write (hb : j.Before products t' b) (hx : x ∈ Product.all) (hp : products x)
    (hpath : j.path? x = some path) (h : a.write path bytes = .ok b) :
    j.Before products t' a := by
  refine FileTree.Later.trans ((FileTree.later_write h).1.mono fun l hlead => ?_) hb
  refine (hlead.mono ?_).later hb
  rintro _ rfl
  exact ⟨x, hx, hp, hpath⟩

theorem Before.of_ensure (hb : j.Before products t' b) (h : a.ensure path = .ok b) :
    j.Before products t' a :=
  FileTree.Later.trans ((FileTree.later_ensure h).mono fun _ hfalse => hfalse.elim) hb

/-- What was written last stays, unless the product is written again. -/
theorem Before.file? (hb : j.Before products t' b) (hx : x ∈ Product.all) (hout : ¬products x)
    (hpath : j.path? x = some path) (hfile : b.file? path = some bytes) :
    t'.file? path = some bytes :=
  FileTree.Later.file?_eq hb hfile fun _ hlocate => not_leads hx hpath hlocate hout

/-- A sink that fails leaves the tree that it came to. -/
theorem Before.of_persist {text : String} (hx : x ∈ Product.all) (hp : products x)
    (hpath : j.path? x = some (Path.join dir name))
    (hb : j.Before products t' ((ArtifactSink.directory dir).persist name text a).2) :
    j.Before products t' a := by
  simp only [ArtifactSink.directory] at hb
  cases hensure : a.ensure dir with
  | error e =>
    rw [hensure] at hb
    exact hb
  | ok t₁ =>
    rw [hensure] at hb
    dsimp only at hb
    cases hwrite : t₁.write (Path.join dir name) (Text.toBytes text) with
    | error e =>
      rw [hwrite] at hb
      exact hb.of_ensure hensure
    | ok t₂ =>
      rw [hwrite] at hb
      exact (hb.of_write hx hp hpath hwrite).of_ensure hensure

theorem repeatable_persist {side : ArtifactSide} {stage : Stage} {text : String}
    (hx : .artifact pass side stage ∈ Product.all) (hp : products (.artifact pass side stage))
    (hoptimizer : j.compiler.optimizer?.isSome) :
    (j.compiler.persist (artifactName j.shader.name pass side stage) text).Repeatable
      (j.Before products t') := by
  refine ⟨.ok (), fun a r b h hb => ⟨?_, rfl⟩⟩
  cases hdir : j.config.artifactDir with
  | none =>
    have hsink : j.compiler.sink = none := by
      simp only [compiler, CommandLine.compiler, hdir, Option.map_none]
    rw [Compiler.persist, hsink] at h
    cases h
    exact hb
  | some dir =>
    have hsink : j.compiler.sink = some (.directory dir) := by
      simp only [compiler, CommandLine.compiler, hdir, Option.map_some]
    have hpath : j.path? (.artifact pass side stage) =
        some (Path.join dir (artifactName j.shader.name pass side stage)) := by
      simp only [path?, hoptimizer, hdir, if_true, Option.map_some, artifactName_eq]
    rw [Compiler.persist, hsink] at h
    obtain ⟨-, rfl⟩ := Prod.mk.inj h
    exact hb.of_persist hx hp hpath

/-- Whether no path that is written leads to a resource that compiling reads, both
in some tree. -/
def Separate (j : Job) (t : FileTree) : Prop :=
  ∀ kind name, j.compiler.Reads j.shader j.material (FileTree.resolver j.root t) kind name →
    ∀ location, t.locate (Path.join j.root (kind.path name)) = .ok location →
      ¬t.Leads j.Written location

/-- Resources that are named unlike the products are kept apart from them, wherever
they lie. -/
theorem separate_of_lastPart
    (h : ∀ kind name, j.compiler.Reads j.shader j.material (FileTree.resolver j.root t) kind name →
      FileTree.Descends (Path.lastPart (kind.path name)) ∧ ∀ x ∈ Product.all,
        Path.lastPart (kind.path name) ≠ Path.lastPart j.shader.name ++ x.ending) :
    j.Separate t := by
  rintro kind name hread location hlocate ⟨path, ⟨x, hx, -, hpath⟩, hlocate'⟩
  obtain ⟨hnames, hne⟩ := h kind name hread
  rw [← Path.lastPart_join j.root] at hnames hne
  have hlast := FileTree.getLast?_locate hnames hlocate
  rw [FileTree.getLast?_locate (names_lastPart hpath) hlocate', lastPart_path? hpath,
    Option.some.injEq] at hlast
  exact hne x hx hlast.symm

theorem Separate.keptBy (hsep : j.Separate t') (h : j.Before (Product.Belongs j.shader) t' a) :
    Resolver.KeptBy
      (j.compiler.Reads j.shader j.material (FileTree.resolver j.root t'))
      (FileTree.resolver j.root a) (FileTree.resolver j.root t') := by
  intro kind name text hread hresolve
  rw [FileTree.resolve_eq_some_iff] at hresolve ⊢
  obtain ⟨bytes, hfile, htext⟩ := Option.bind_eq_some_iff.1 hresolve
  refine Option.bind_eq_some_iff.2 ⟨bytes, ?_, htext⟩
  exact FileTree.Later.file?_eq h hfile (hsep kind name hread)

/-- The products that a job may still write before some tree: all that belong to
the shader, or some of them that include the artifacts. -/
structure Allows (j : Job) (products : Product → Prop) : Prop where
  belongs : ∀ x, products x → x.Belongs j.shader
  artifact : ∀ pass side stage, (j.shader.pass? pass).isSome →
    products (.artifact pass side stage)

theorem allows_belongs (j : Job) : j.Allows (Product.Belongs j.shader) where
  belongs _ h := h
  artifact _ _ _ h := h

/-- The products of a job but for one. -/
def others (j : Job) (x y : Product) : Prop :=
  y.Belongs j.shader ∧ y ≠ x

theorem allows_others_text (j : Job) (pass : Pass) (stage : Stage) :
    j.Allows (j.others (.text pass stage)) where
  belongs _ h := h.1
  artifact _ _ _ h := ⟨h, Product.noConfusion⟩

theorem path?_text (j : Job) (pass : Pass) (stage : Stage) :
    j.path? (.text pass stage) =
      some (Path.join j.dir (textFile j.shader.name pass stage)) := by
  rw [path?, textFile_eq]

theorem path?_cooked (j : Job) :
    j.path? .cooked = some (Path.join j.dir (j.shader.name ++ ".cooked")) := rfl

/-- Compiling a pass comes first, then its two texts are written. -/
theorem write_eq_ok (h : (j.write p).run a = (.ok (), b)) : ∃ q a₁ a₂,
    (j.compiler.compilePass j.shader p.graph.pass j.material).run a = (.ok q, a₁) ∧
    a₁.write (Path.join j.dir (textFile j.shader.name p.graph.pass .vertex))
      (Text.toBytes q.vertex) = .ok a₂ ∧
    a₂.write (Path.join j.dir (textFile j.shader.name p.graph.pass .fragment))
      (Text.toBytes q.fragment) = .ok b := by
  obtain ⟨q, a₁, hcompile, h⟩ := Loading.run_bind_eq_ok h
  obtain ⟨_, a₂, hvertex, h⟩ := Loading.run_bind_eq_ok h
  exact ⟨q, a₁, a₂, run_during_iff.1 hcompile, run_writeFile_iff.1 hvertex,
    run_writeFile_iff.1 h⟩

theorem perform_eq_ok (h : (j.perform t).run t = (.ok (), t')) : ∃ t₁ t₂ t₃ bytes,
    t.ensure j.dir = .ok t₁ ∧ (j.shader.passes.forM j.write).run t₁ = (.ok (), t₂) ∧
    (j.compiler.cook j.shader j.material).run t₂ = (.ok bytes, t₃) ∧
    t₃.write (Path.join j.dir (j.shader.name ++ ".cooked")) bytes = .ok t' := by
  obtain ⟨t₁, _, hensure, h⟩ := Loading.run_bind_eq_ok h
  obtain ⟨_, _, hset, h⟩ := Loading.run_bind_eq_ok h
  cases hset
  obtain ⟨_, t₂, hwrites, h⟩ := Loading.run_bind_eq_ok h
  obtain ⟨bytes, t₃, hcook, h⟩ := Loading.run_bind_eq_ok h
  exact ⟨t₁, t₂, t₃, bytes, congrArg Prod.fst hensure, hwrites, hcook, run_writeFile_iff.1 h⟩

section Loaded

variable {resolver : Resolver} {l : Limits} {d : Document} {v : Variant} {r r' : Registry}
  {answer : Pass → Outcome CompiledPass}
  (hload : (Shader.load resolver l d v).run r = (.ok j.shader, r'))

include hload

theorem repeatable_compilePass (hsep : j.Separate t') (hallows : j.Allows products) (pass : Pass) :
    (j.compiler.compilePass j.shader pass j.material).Repeatable (j.Before products t') := by
  refine Compiler.repeatable_compilePass (FileTree.resolver j.root t')
    (fun a ha => hsep.keptBy (ha.mono hallows.belongs)) ?_
  intro hpass hoptimizer side stage text
  exact repeatable_persist
    (Product.artifact_mem (Shader.mem_all_of_isSome hload hpass) side stage)
    (hallows.artifact pass side stage hpass) hoptimizer

theorem before_of_compilePass (hsep : j.Separate t') (hallows : j.Allows products)
    {q : CompiledPass}
    (h : (j.compiler.compilePass j.shader pass j.material).run a = (.ok q, b))
    (hb : j.Before products t' b) : j.Before products t' a := by
  obtain ⟨answer, hanswer⟩ := repeatable_compilePass hload hsep hallows pass
  exact (hanswer h hb).1

theorem before_of_cook (hsep : j.Separate t') (hallows : j.Allows products)
    (h : (j.compiler.cook j.shader j.material).run a = (.ok bytes, b))
    (hb : j.Before products t' b) : j.Before products t' a := by
  choose answer hanswer using repeatable_compilePass hload hsep hallows
  exact (Compiler.repeats_cook hanswer h hb).1

theorem text_mem (hp : p ∈ j.shader.passes) (stage : Stage) :
    Product.text p.graph.pass stage ∈ Product.all :=
  Product.text_mem ((Shader.sublist_of_load hload).subset (List.mem_map_of_mem hp)) stage

theorem isSome_of_mem (hp : p ∈ j.shader.passes) : (j.shader.pass? p.graph.pass).isSome :=
  (Shader.isSome_pass?_iff hload).2 (List.mem_map_of_mem hp)

theorem before_of_write (hsep : j.Separate t') (hallows : j.Allows products)
    (hp : p ∈ j.shader.passes) (htext : ∀ stage, products (.text p.graph.pass stage))
    (h : (j.write p).run a = (.ok (), b)) (hb : j.Before products t' b) :
    j.Before products t' a := by
  obtain ⟨q, a₁, a₂, hcompile, hvertex, hfragment⟩ := write_eq_ok h
  have h₂ := hb.of_write (text_mem hload hp _) (htext _) (path?_text ..) hfragment
  have h₁ := h₂.of_write (text_mem hload hp _) (htext _) (path?_text ..) hvertex
  exact before_of_compilePass hload hsep hallows hcompile h₁

theorem before_of_writes (hsep : j.Separate t') (hallows : j.Allows products)
    {passes : List ShaderPass} (hsub : passes ⊆ j.shader.passes)
    (htexts : ∀ p ∈ passes, ∀ stage, products (.text p.graph.pass stage)) :
    ∀ {a}, (passes.forM j.write).run a = (.ok (), b) → j.Before products t' b →
      j.Before products t' a := by
  induction passes with
  | nil =>
    intro a h hb
    cases h
    exact hb
  | cons p rest ih =>
    intro a h hb
    obtain ⟨_, a₁, hwrite, hwrites⟩ := Loading.run_bind_eq_ok h
    rw [List.cons_subset] at hsub
    rw [List.forall_mem_cons] at htexts
    exact before_of_write hload hsep hallows hsub.1 htexts.1 hwrite
      (ih hsub.2 htexts.2 hwrites hb)

end Loaded

end Job

end CommandLine

end MaterialGraph
