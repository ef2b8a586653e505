import MaterialGraph.Proofs.Assembly.Reads
import MaterialGraph.Proofs.Cooked.Format
import MaterialGraph.Proofs.Cooked.MappingBlock
import MaterialGraph.Proofs.Shader.Declared

/-!
Cooking a shader beside compiling its passes one by one. A compiler whose resolver
does not depend on the state of the outside gives one answer in all states, since
artifacts are written and never read. Main statement: a loaded shader is cooked
exactly if each of its passes but the preview compiles and fits a record, and the
bytes read back as these passes in index order.
-/

namespace MaterialGraph

namespace Action

variable {σ α β : Type} {x : Action σ α} {f : α → Action σ β}

/-- Whether an activity gives an answer in every state. -/
def Answers (x : Action σ α) (answer : Outcome α) : Prop :=
  ∀ state, (x.run state).1 = answer

/-- Whether an activity gives the same answer in every state. -/
def Steady (x : Action σ α) : Prop :=
  ∃ answer, x.Answers answer

theorem answers_ofOutcome (r : Outcome α) : (ofOutcome r : Action σ α).Answers r :=
  fun _ => rfl

theorem Answers.bind {r : Outcome α} {k : α → Outcome β} (hx : x.Answers r)
    (hf : ∀ a, (f a).Answers (k a)) : (x >>= f).Answers (r >>= k) := by
  intro state
  have hrun : x.run state = (r, (x.run state).2) := Prod.ext (hx state) rfl
  cases r with
  | error e =>
    rw [Loading.run_bind_of_error hrun]
    rfl
  | ok a =>
    rw [Loading.run_bind_of_ok hrun]
    exact hf a _

theorem Answers.bind_ok {a : α} {r : Outcome β} (hx : x.Answers (.ok a))
    (hf : (f a).Answers r) : (x >>= f).Answers r := by
  intro state
  have hrun : x.run state = (.ok a, (x.run state).2) := Prod.ext (hx state) rfl
  rw [Loading.run_bind_of_ok hrun]
  exact hf _

theorem answers_mapM {f : α → Action σ β} {k : α → Outcome β} (hf : ∀ a, (f a).Answers (k a))
    (l : List α) : (l.mapM f).Answers (l.mapM k) := by
  induction l with
  | nil => exact fun _ => rfl
  | cons a l ih =>
    rw [List.mapM_cons, List.mapM_cons]
    exact (hf a).bind fun b => ih.bind fun bs _ => rfl

theorem steady_ofOutcome (r : Outcome α) : (ofOutcome r : Action σ α).Steady :=
  ⟨r, answers_ofOutcome r⟩

theorem steady_pure (a : α) : (pure a : Action σ α).Steady :=
  ⟨.ok a, fun _ => rfl⟩

theorem steady_throw (e : Failure) : (throw e : Action σ α).Steady :=
  ⟨.error e, fun _ => rfl⟩

theorem Steady.bind (hx : x.Steady) (hf : ∀ a, (f a).Steady) : (x >>= f).Steady := by
  obtain ⟨r, hr⟩ := hx
  choose k hk using hf
  exact ⟨r >>= k, hr.bind hk⟩

/-- Looking at the state does no harm where nothing depends on it. -/
theorem Steady.get_bind (hx : x.Steady) : ((get : Action σ σ) >>= fun _ => x).Steady := by
  obtain ⟨answer, hanswer⟩ := hx
  refine ⟨answer, fun state => ?_⟩
  have hget : (get : Action σ σ).run state = (.ok state, state) := rfl
  rw [Loading.run_bind_of_ok hget]
  exact hanswer state

end Action

open MaterialGraph.Action

namespace Assembly

variable {resolver : Resolver}

/-- Whether every fragment that may be asked for is there. -/
def Complete (resolver : Resolver) : Prop :=
  ∀ name, ∃ text, resolver.resolve .fragment name = .ok (some text)

/-- With every fragment there, what goes into the optimizer is there for every plan. -/
theorem exists_source (h : Complete resolver) (config : Config) (p : Plan) :
    ∃ text, source config resolver p = .ok text :=
  source_ok_iff.2 fun name _ => h name

end Assembly

namespace Compiler

variable {σ : Type} {c : Compiler σ} {texts : Resolver}

/-- A sink only changes the state. -/
theorem steady_persist (name text : String) : (c.persist name text).Steady := by
  unfold persist
  cases c.sink with
  | none => exact steady_pure ()
  | some s => exact ⟨.ok (), fun _ => rfl⟩

theorem steady_assemble (htexts : ∀ state, c.resolver state = texts) (p : Plan) :
    (c.assemble p).Steady := by
  simp only [assemble, htexts]
  refine Steady.get_bind ((steady_ofOutcome _).bind fun source => ?_)
  cases c.optimizer? with
  | none => exact steady_pure source
  | some o =>
    refine (steady_persist _ _).bind fun _ => ?_
    cases o.optimize source p.stage with
    | ok optimized => exact (steady_persist _ _).bind fun _ => steady_pure _
    | error log => exact (steady_persist _ _).bind fun _ => steady_throw _

theorem steady_compilePass (htexts : ∀ state, c.resolver state = texts) (s : Shader) (pass : Pass)
    (material : Material) : (c.compilePass s pass material).Steady := by
  simp only [compilePass, htexts]
  refine (steady_ofOutcome _).bind fun p => ?_
  refine (steady_ofOutcome _).bind fun e => ?_
  refine Steady.get_bind ((steady_ofOutcome _).bind fun functions => ?_)
  refine (steady_ofOutcome _).bind fun body => ?_
  refine (steady_assemble htexts _).bind fun vertex => ?_
  refine (steady_assemble htexts _).bind fun fragment => ?_
  exact steady_pure _

variable {s : Shader} {pass : Pass} {material : Material} {state : σ} {q : CompiledPass}

/-- A pass that compiles has the outputs that the shader gives for it. -/
theorem outputs_of_compilePass (h : ((c.compilePass s pass material).run state).1 = .ok q) :
    q.outputs = s.outputs pass := by
  have hrun : (c.compilePass s pass material).run state =
      (.ok q, ((c.compilePass s pass material).run state).2) := Prod.ext h rfl
  obtain ⟨p, st, hp, hrun⟩ := Loading.run_bind_eq_ok hrun
  obtain ⟨e, st, -, hrun⟩ := Loading.run_bind_eq_ok hrun
  obtain ⟨outside, st, -, hrun⟩ := Loading.run_bind_eq_ok hrun
  obtain ⟨functions, st, -, hrun⟩ := Loading.run_bind_eq_ok hrun
  obtain ⟨body, st, -, hrun⟩ := Loading.run_bind_eq_ok hrun
  obtain ⟨vertex, st, -, hrun⟩ := Loading.run_bind_eq_ok hrun
  obtain ⟨fragment, st, -, hrun⟩ := Loading.run_bind_eq_ok hrun
  cases hrun
  have hrequired : s.requirePass pass = .ok p := congrArg Prod.fst hp
  rw [Shader.outputs, Shader.pass?_of_requirePass hrequired]
  rfl

end Compiler

namespace Shader

/-- The passes that are cooked. -/
def cookedPasses (s : Shader) : List Pass :=
  (s.passes.map fun p => p.graph.pass).filter (· != .preview)

variable {resolver : Resolver} {l : Limits} {d : Document} {v : Variant} {r r' : Registry}
  {s : Shader} {pass : Pass}

theorem sublist_cookedPasses (h : (load resolver l d v).run r = (.ok s, r')) :
    s.cookedPasses.Sublist Pass.all :=
  List.filter_sublist.trans (sublist_of_load h)

/-- All passes of a loaded shader but the preview are cooked. -/
theorem mem_cookedPasses (h : (load resolver l d v).run r = (.ok s, r')) :
    pass ∈ s.cookedPasses ↔ (s.pass? pass).isSome ∧ pass ≠ .preview := by
  simp only [cookedPasses, List.mem_filter, List.mem_map, Option.isSome_iff_exists,
    pass?_eq_some_iff h, bne_iff_ne]

end Shader

namespace CompiledPass

/-- Whether there is a record for a compiled pass: its mapping fits the wire layout, and
each text, with the byte that ends it, has a 32-bit length. -/
def Fits (q : CompiledPass) : Prop :=
  MappingBlock.fits q.mapping ∧ (Text.toBytes q.vertex).length + 1 < 0x100000000 ∧
    (Text.toBytes q.fragment).length + 1 < 0x100000000

/-- What is cooked of a compiled pass. -/
def record (q : CompiledPass) (pass : Pass) : Outcome CookedPass := do
  let block ← (MappingBlock.ofMapping q.mapping).mapError Failure.fault
  .ok ⟨pass, q.outputs, block, q.vertex, q.fragment⟩

variable {q : CompiledPass} {pass : Pass} {k : CookedPass}

theorem record_eq_ok_iff : q.record pass = .ok k ↔
    ∃ block, MappingBlock.ofMapping q.mapping = .ok block ∧
      k = ⟨pass, q.outputs, block, q.vertex, q.fragment⟩ := by
  simp only [record, Except.bind_eq_ok_iff, Except.mapError_eq_ok_iff, Except.ok.injEq,
    eq_comm (a := k)]

/-- A compiled pass fits exactly if it has a record and the record has bytes. -/
theorem fits_iff (hpass : pass ∈ Pass.all) : q.Fits ↔
    ∃ k, q.record pass = .ok k ∧ ∃ bytes, Cooked.encodePass k = .ok bytes := by
  simp only [record_eq_ok_iff, Fits, ← MappingBlock.exists_ofMapping_iff]
  constructor
  · intro ⟨⟨block, hblock⟩, hvertex, hfragment⟩
    refine ⟨_, ⟨block, hblock, rfl⟩, (Cooked.exists_encodePass_iff hpass).2 ?_⟩
    dsimp only
    omega
  · rintro ⟨k, ⟨block, hblock, rfl⟩, hbytes⟩
    have htexts := (Cooked.exists_encodePass_iff hpass).1 hbytes
    dsimp only at htexts
    exact ⟨⟨block, hblock⟩, by omega, by omega⟩

end CompiledPass

namespace Compiler

variable {σ : Type} {c : Compiler σ} {s : Shader} {material : Material}
  {answer : Pass → Outcome CompiledPass}

theorem answers_cookPass {pass : Pass}
    (h : (c.compilePass s pass material).Answers (answer pass)) :
    (c.cookPass s material pass).Answers (answer pass >>= fun q => q.record pass) :=
  h.bind fun _ => (answers_ofOutcome _).bind fun _ _ => rfl

/-- Cooking compiles the passes, records them and encodes the records. -/
theorem answers_cook (h : ∀ pass, (c.compilePass s pass material).Answers (answer pass)) :
    (c.cook s material).Answers
      (s.cookedPasses.mapM (fun pass => answer pass >>= fun q => q.record pass) >>=
        Cooked.encode Cooked.textBackend) :=
  (answers_mapM (fun pass => answers_cookPass (h pass)) _).bind fun _ => answers_ofOutcome _

section Loaded

variable {texts resolver : Resolver} {l : Limits} {d : Document} {v : Variant} {r r' : Registry}

/-- Records are encoded exactly if each of them is; a loaded shader has few enough. -/
theorem exists_cooked_iff (hload : (Shader.load resolver l d v).run r = (.ok s, r')) :
    (∃ bytes, (s.cookedPasses.mapM (fun pass => answer pass >>= fun q => q.record pass) >>=
      Cooked.encode Cooked.textBackend) = .ok bytes) ↔
    ∀ pass ∈ s.cookedPasses, ∃ q, answer pass = .ok q ∧ q.Fits := by
  have hall (pass : Pass) (h : pass ∈ s.cookedPasses) : pass ∈ Pass.all :=
    (Shader.sublist_cookedPasses hload).subset h
  constructor
  · intro ⟨bytes, hbytes⟩ pass hpass
    obtain ⟨records, hrecords, hencode⟩ := Except.bind_eq_ok_iff.1 hbytes
    obtain ⟨k, hk, hrecord⟩ := (Except.mapM_eq_ok_iff.1 hrecords).exists_mem pass hpass
    obtain ⟨q, hq, hrecord⟩ := Except.bind_eq_ok_iff.1 hrecord
    have hencoded := Cooked.encodePass_of_encode hencode k hk
    exact ⟨q, hq, (CompiledPass.fits_iff (hall pass hpass)).2 ⟨k, hrecord, hencoded⟩⟩
  · intro h
    obtain ⟨records, hrecords⟩ := Except.exists_mapM_eq_ok (l := s.cookedPasses)
      (k := fun pass => answer pass >>= fun q => q.record pass) fun pass hpass => by
        obtain ⟨q, hq, hfits⟩ := h pass hpass
        obtain ⟨k, hk, -⟩ := (CompiledPass.fits_iff (hall pass hpass)).1 hfits
        exact ⟨k, Except.bind_eq_ok_iff.2 ⟨q, hq, hk⟩⟩
    have hrecord := Except.mapM_eq_ok_iff.1 hrecords
    have hlength := (Shader.sublist_cookedPasses hload).length_le
    have hcount : records.length ≤ 255 := by
      rw [← hrecord.length_eq]
      exact Nat.le_trans hlength (by decide)
    obtain ⟨bytes, hbytes⟩ := Cooked.exists_encode Cooked.textBackend hcount fun k hk => by
      obtain ⟨pass, hpass, hk⟩ := hrecord.flip.exists_mem k hk
      obtain ⟨q, hq, hfits⟩ := h pass hpass
      obtain ⟨k', hk', hencoded⟩ := (CompiledPass.fits_iff (hall pass hpass)).1 hfits
      rw [hq] at hk
      cases hk.symm.trans hk'
      exact hencoded
    exact ⟨bytes, Except.bind_eq_ok_iff.2 ⟨records, hrecords, hbytes⟩⟩

/-- The records of what is cooked: the passes in index order, as compiling gives them. -/
theorem decode_cooked (hload : (Shader.load resolver l d v).run r = (.ok s, r'))
    {bytes : List UInt8}
    (h : (s.cookedPasses.mapM (fun pass => answer pass >>= fun q => q.record pass) >>=
      Cooked.encode Cooked.textBackend) = .ok bytes) :
    ∃ records, Cooked.decode bytes = .ok (Cooked.textBackend, records) ∧
      records.map CookedPass.pass = s.cookedPasses ∧
      ∀ k ∈ records, ∃ q, answer k.pass = .ok q ∧ q.record k.pass = .ok k := by
  obtain ⟨records, hrecords, hencode⟩ := Except.bind_eq_ok_iff.1 h
  have hrecord : List.Forall₂ (fun pass k => k.pass = pass ∧
      ∃ q, answer pass = .ok q ∧ q.record pass = .ok k) s.cookedPasses records := by
    refine (Except.mapM_eq_ok_iff.1 hrecords).imp fun pass k hk => ?_
    obtain ⟨q, hq, hk⟩ := Except.bind_eq_ok_iff.1 hk
    obtain ⟨block, -, rfl⟩ := CompiledPass.record_eq_ok_iff.1 hk
    exact ⟨rfl, q, hq, hk⟩
  have hpasses : records.map CookedPass.pass = s.cookedPasses := by
    refine List.forall₂_eq_eq_eq ▸ List.forall₂_map_left_iff.2 ?_
    exact hrecord.flip.imp fun k pass hk => hk.1
  refine ⟨records, Cooked.decode_of_encode (fun k hk => ?_) hencode, hpasses, fun k hk => ?_⟩
  · have hmem : k.pass ∈ s.cookedPasses := hpasses ▸ List.mem_map_of_mem hk
    exact (Shader.sublist_cookedPasses hload).subset hmem
  · obtain ⟨pass, -, rfl, hk⟩ := hrecord.flip.exists_mem k hk
    exact hk

/-- Cooking a loaded shader is compiling its passes, whatever the state of the outside.
It succeeds exactly if every pass but the preview compiles and fits a record; and then
the bytes read back as the records of these passes, in index order. -/
theorem cook_eq_compile (hload : (Shader.load resolver l d v).run r = (.ok s, r'))
    (htexts : ∀ state, c.resolver state = texts) (material : Material) (state : σ) :
    let answer (pass : Pass) := ((c.compilePass s pass material).run state).1
    let cooked := ((c.cook s material).run state).1
    (∀ pass state', ((c.compilePass s pass material).run state').1 = answer pass) ∧
    ((∃ bytes, cooked = .ok bytes) ↔
      ∀ pass, (s.pass? pass).isSome → pass ≠ .preview → ∃ q, answer pass = .ok q ∧ q.Fits) ∧
    ∀ bytes, cooked = .ok bytes → ∃ records,
      Cooked.decode bytes = .ok (Cooked.textBackend, records) ∧
      (records.map CookedPass.pass).Pairwise (fun pass next => pass.index < next.index) ∧
      (∀ pass, pass ∈ records.map CookedPass.pass ↔ (s.pass? pass).isSome ∧ pass ≠ .preview) ∧
      ∀ k ∈ records, k.outputs = s.outputs k.pass ∧ ∃ q, answer k.pass = .ok q ∧
        k.vertex = q.vertex ∧ k.fragment = q.fragment ∧
        MappingBlock.ofMapping q.mapping = .ok k.mapping := by
  intro answer cooked
  have hanswers (pass : Pass) : (c.compilePass s pass material).Answers (answer pass) := by
    obtain ⟨value, hvalue⟩ := steady_compilePass htexts s pass material
    have hanswer : answer pass = value := hvalue state
    rwa [hanswer]
  have hcooked : cooked = (s.cookedPasses.mapM (fun pass => answer pass >>=
      fun q => q.record pass) >>= Cooked.encode Cooked.textBackend) :=
    answers_cook hanswers state
  refine ⟨fun pass => hanswers pass, ?_, fun bytes hbytes => ?_⟩
  · rw [hcooked, exists_cooked_iff hload]
    simp only [Shader.mem_cookedPasses hload, and_imp]
  · rw [hcooked] at hbytes
    obtain ⟨records, hdecode, hpasses, hrecords⟩ := decode_cooked hload hbytes
    refine ⟨records, hdecode, ?_, fun pass => ?_, fun k hk => ?_⟩
    · rw [hpasses]
      exact Pass.all_ascending.sublist (Shader.sublist_cookedPasses hload)
    · rw [hpasses, Shader.mem_cookedPasses hload]
    · obtain ⟨q, hq, hrecord⟩ := hrecords k hk
      have houtputs := outputs_of_compilePass hq
      obtain ⟨block, hblock, heq⟩ := CompiledPass.record_eq_ok_iff.1 hrecord
      rw [heq] at houtputs ⊢
      exact ⟨houtputs, q, hq, rfl, rfl, hblock⟩

end Loaded

/-- Has an empty text for every name. -/
def blankTexts : Resolver where
  resolve _ _ := .ok (some "")
  place := ResourceKind.path

/-- Optimizes everything to one text and keeps artifacts. -/
def blank : Compiler (Table String) where
  config := {}
  resolver _ := blankTexts
  optimizer := some ⟨fun _ _ => .ok "void main() {}"⟩
  sink := some .table

def blankLit : CompiledPass where
  pass := .fullbright
  outputs := Shader.litPass.graph.outputs
  mapping := Shader.litPass.mapping
  texCoords := ⟨[]⟩
  vertex := "void main() {}"
  fragment := "void main() {}"

theorem answers_assemble_blank (p : Plan) : (blank.assemble p).Answers (.ok "void main() {}") := by
  have hcomplete : Assembly.Complete blankTexts := fun _ => ⟨"", rfl⟩
  obtain ⟨text, htext⟩ := Assembly.exists_source hcomplete blank.config p
  intro state
  have hget : (get : Action (Table String) (Table String)).run state = (.ok state, state) := rfl
  have hsource : (ofOutcome (Assembly.source blank.config (blank.resolver state) p) :
      Action (Table String) String).Answers (.ok text) := fun _ => htext
  unfold assemble
  rw [Loading.run_bind_of_ok hget]
  exact hsource.bind_ok (fun _ => rfl) state

theorem answers_compilePass_blank :
    (blank.compilePass Shader.litShader .fullbright {}).Answers (.ok blankLit) := by
  have hpass : (ofOutcome (Shader.litShader.requirePass .fullbright) :
      Action (Table String) ShaderPass).Answers (.ok Shader.litPass) := fun _ => rfl
  have hmap : (ofOutcome (Shader.litShader.mappings {} .fullbright {}) :
      Action (Table String) _).Answers (.ok (blankLit.mapping, blankLit.texCoords)) := fun _ => rfl
  have hlibrary : (ofOutcome (Shader.litShader.library blankTexts) :
      Action (Table String) String).Answers (.ok "") := fun _ => rfl
  have hbody : (ofOutcome (Shader.litShader.body {} .fullbright {}) :
      Action (Table String) Body).Answers
        (.ok [.assign .color (.text (Accessor.text .lightVec 1))]) := fun _ => rfl
  refine hpass.bind_ok (hmap.bind_ok ?_)
  intro state
  have hget : (get : Action (Table String) (Table String)).run state = (.ok state, state) := rfl
  dsimp only
  rw [Loading.run_bind_of_ok hget]
  refine (hlibrary.bind_ok (hbody.bind_ok ?_)) state
  refine (answers_assemble_blank _).bind_ok ((answers_assemble_blank _).bind_ok ?_)
  exact fun _ => rfl

theorem cook_eq_compile_blank : ∃ bytes records,
    ((blank.cook Shader.litShader {}).run .empty).1 = .ok bytes ∧
      Cooked.decode bytes = .ok (Cooked.textBackend, records) ∧
      ∃ k ∈ records, k.pass = .fullbright ∧ k.vertex = "void main() {}" ∧
        MappingBlock.ofMapping Shader.litPass.mapping = .ok k.mapping := by
  obtain ⟨-, hiff, hrecords⟩ :=
    cook_eq_compile (c := blank) Shader.load_lit (fun _ => rfl) {} .empty
  have hlit := answers_compilePass_blank .empty
  have hfits : blankLit.Fits := ⟨rfl, by decide, by decide⟩
  obtain ⟨bytes, hbytes⟩ := hiff.2 fun pass hpass _ => by
    obtain ⟨p, hp⟩ := Option.isSome_iff_exists.1 hpass
    obtain ⟨hmem, rfl⟩ := (Shader.pass?_eq_some_iff Shader.load_lit).1 hp
    obtain rfl := List.mem_singleton.1 hmem
    exact ⟨blankLit, hlit, hfits⟩
  obtain ⟨records, hdecode, -, hmem, hrecord⟩ := hrecords bytes hbytes
  obtain ⟨k, hk, hpass⟩ := List.mem_map.1 ((hmem .fullbright).2 ⟨rfl, by decide⟩)
  obtain ⟨-, q, hq, hvertex, -, hmapping⟩ := hrecord k hk
  rw [hpass] at hq
  cases hq.symm.trans hlit
  exact ⟨bytes, records, hbytes, hdecode, k, hk, hpass, hvertex, hmapping⟩

end Compiler

end MaterialGraph
