import MaterialGraph.Proofs.Assembly.Defines

/-!
Texture coordinate registers from the material to the defines. Main statement: an
index in use has one register, which is defined as the material prescribes for the
index, though the register may be that of another index.
-/

namespace MaterialGraph

namespace Define

theorem flatMap_flagIf {α : Type} (condition : α → Bool) (f : α → String) (l : List α) :
    (l.flatMap fun x => flagIf (condition x) (f x)) =
      (l.filter condition).map fun x => flag (f x) := by
  induction l with
  | nil => rfl
  | cons x rest ih =>
    rw [List.flatMap_cons, ih]
    cases hx : condition x with
    | true => rw [List.filter_cons_of_pos hx]; rfl
    | false => rw [List.filter_cons_of_neg (Bool.eq_false_iff.1 hx)]; rfl

/-- The defines by which a register computes what a stage prescribes. -/
def prescribed (stage : TextureStage) (register : Nat) : List Define :=
  let title := registerTitle register
  [⟨title ++ "UV", some (toString stage.uv)⟩] ++
    ((TexCoordMod.all.filter fun m => stage.modFlags &&& m.flag != 0).map
      fun m => ⟨title ++ m.defineSuffix, none⟩) ++
    if stage.gen = .envmap then [⟨title ++ "GENREFLECT", none⟩] else []

theorem ofRegister_eq (m : Material) (register : Nat) (index : UInt8) :
    ofRegister m register index = prescribed (m.stage index) register := by
  unfold ofRegister
  simp only [flatMap_flagIf]
  cases hgen : (m.stage index).gen with
  | vertex => simp [prescribed, hgen, flagIf, registerTitle, valued, flag]
  | envmap => simp [prescribed, hgen, flagIf, registerTitle, valued, flag]

/-- Stages that agree in what a register computes are prescribed alike. -/
theorem prescribed_congr {stage stage' : TextureStage} (huv : stage.uv = stage'.uv)
    (hflags : stage.modFlags = stage'.modFlags) (hgen : stage.gen = stage'.gen) (register : Nat) :
    prescribed stage register = prescribed stage' register := by
  rw [prescribed, prescribed, huv, hflags, hgen]

end Define

namespace Mapping

variable {m b : Mapping} {u : Usage} {pass : Pass} {v : Variant} {l : Limits}
  {material : Material} {t : TexCoordTable} {i : UInt8}

/-- The register count is defined if some register is used. -/
theorem registerCount_defined (h : full b u material l = .ok (m, t)) {register : Nat} {c : UInt8}
    (hc : t.canonicals[register]? = some c) {p : Plan} (hp : p.mapping = m) (gles : Bool) :
    Define.passing (fun name => name = "TEXCOORDS") (p.defines gles) =
      [.valued "TEXCOORDS" (toString t.registerCount)] := by
  obtain ⟨hregisters, htable⟩ := registers_full h
  have hcounted : Accessors.counted p.usage p.mapping .texCoord = t.registerCount := by
    rw [TexCoordTable.registerCount_ofUsage htable, hp, ← hregisters]
    rfl
  have hpositive : t.registerCount ≠ 0 := by
    obtain ⟨hlt, -⟩ := List.getElem?_eq_some_iff.1 hc
    rw [TexCoordTable.registerCount_ofUsage htable]
    omega
  have hcount := Define.counts_defines p gles .texCoord
  rw [hcounted, Define.count, if_neg hpositive] at hcount
  exact hcount

/-- An index in use has one entry, whose register is mapped to the canonical index
of the entry, is defined as the material prescribes for the index itself, and has an
array of its channel. -/
theorem register_prescribed (h : full b u material l = .ok (m, t))
    (hi : i ∈ u.indices .texCoord) :
    ∃ e, t.entries.filter (fun e => e.index = i) = [e] ∧ t.register? i = some e.register ∧
      m.registers[e.register.toNat]? = some e.canonical ∧
      (∀ (p : Plan) (gles : Bool), p.mapping = m → p.material = material →
        Define.passing (fun name => name = "TEXCOORDS") (p.defines gles) =
            [.valued "TEXCOORDS" (toString t.registerCount)] ∧
          (p.stage = .vertex →
            Define.passing (Define.isTitled e.register.toNat) (p.defines gles) =
              Define.prescribed (material.stage i) e.register.toNat)) ∧
      m.attributes.count ⟨.texCoords, (material.stage i).uv⟩ =
        b.attributes.count ⟨.texCoords, (material.stage i).uv⟩ + 1 ∧
      ∀ pass v l', base u pass v l' = .ok b →
        m.attributes.count ⟨.texCoords, (material.stage i).uv⟩ = 1 := by
  obtain ⟨hregisters, htable⟩ := registers_full h
  obtain ⟨e, hentry, hregister, hcanonical, hleader⟩ := TexCoordTable.entry_of_mem htable hi
  obtain ⟨huv, hflags, hgen⟩ :=
    TexCoordTable.stage_leader material (u.indices .texCoord).toList i
  rw [← hleader] at huv hflags hgen
  have hcount := count_texCoords_full h (List.mem_of_getElem? hcanonical)
  rw [huv] at hcount
  refine ⟨e, hentry, hregister, hregisters ▸ hcanonical, ?_, hcount, ?_⟩
  · intro p gles hp hmaterial
    refine ⟨registerCount_defined h hcanonical hp gles, fun hstage => ?_⟩
    rw [Define.registers_defines p gles hstage, hp, hmaterial, hregisters, hcanonical,
      Option.elim_some, Define.ofRegister_eq]
    exact Define.prescribed_congr huv hflags hgen _
  · intro pass v l' hbase
    rw [hcount, count_texCoords_base hbase]

/-- Index 4 reads what index 1 reads, index 2 rotates it. -/
def threeCoordinates : Usage :=
  .ofLeaves [⟨.texCoord, 1⟩, ⟨.texCoord, 2⟩, ⟨.texCoord, 4⟩]

def rotating : Material where
  textures := [{}, { uv := 3 }, { uv := 3, mods := { rotate := some .sine } }, {},
    { uv := 3, mods := { scale := some .identity } }]

def rotatingTable : TexCoordTable :=
  ⟨[⟨1, 0, 1⟩, ⟨2, 1, 2⟩, ⟨4, 0, 1⟩]⟩

theorem register_prescribed_rotating :
    ∃ m, full {} threeCoordinates rotating {} = .ok (m, rotatingTable) ∧
      m.registers[0]? = some 1 ∧ m.registers[1]? = some 2 ∧
      ∀ (p : Plan) (gles : Bool), p.mapping = m → p.material = rotating → p.stage = .vertex →
        Define.passing (Define.isTitled 0) (p.defines gles) = [⟨"TEXCOORD0_UV", some "3"⟩] ∧
        Define.passing (Define.isTitled 1) (p.defines gles) =
          [⟨"TEXCOORD1_UV", some "3"⟩, ⟨"TEXCOORD1_ROTATE", none⟩] := by
  obtain ⟨m, hfull⟩ : ∃ m, full {} threeCoordinates rotating {} = .ok (m, rotatingTable) :=
    ⟨_, rfl⟩
  have hplain : 4 ∈ threeCoordinates.indices .texCoord := by decide
  have hrotated : 2 ∈ threeCoordinates.indices .texCoord := by decide
  obtain ⟨e, hentry, -, hcanonical, hdefines, -⟩ := register_prescribed hfull hplain
  obtain rfl : ⟨4, 0, 1⟩ = e := List.singleton_inj.1 hentry
  obtain ⟨e', hentry', -, hcanonical', hdefines', -⟩ := register_prescribed hfull hrotated
  obtain rfl : ⟨2, 1, 2⟩ = e' := List.singleton_inj.1 hentry'
  refine ⟨m, hfull, hcanonical, hcanonical', fun p gles hp hmaterial hstage => ⟨?_, ?_⟩⟩
  · exact (hdefines p gles hp hmaterial).2 hstage
  · exact (hdefines' p gles hp hmaterial).2 hstage

end Mapping

end MaterialGraph
