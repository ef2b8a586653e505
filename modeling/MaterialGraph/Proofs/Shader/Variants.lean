import MaterialGraph.Proofs.Assembly.Registers
import MaterialGraph.Proofs.Shader.Declared

/-!
What a variant shows in the defines of a stage and what it binds. The defines are
written from the plan of one stage, the streams are bound when the shader is loaded.
Main statement: the two tell the shader code the same, for every pass of a shader that
is loaded for the material it is compiled with. Normals of all indices are an exception:
they are bound, and counted as none.
-/

namespace MaterialGraph

namespace Define

variable {p : Plan} {gles : Bool} {d : Define} {ds : List Define} {name : String}

def Defined (ds : List Define) (name : String) : Prop :=
  ∃ d ∈ ds, d.name = name

theorem defined_count_of_pos {n : Nat} (h : 0 < n) : Defined (count name n) name :=
  ⟨valued name (toString n), by rw [count, if_neg (by omega)]; exact List.mem_cons_self, rfl⟩

theorem Defined.of_subset {es : List Define} (h : Defined ds name) (hsub : ds ⊆ es) :
    Defined es name := by
  obtain ⟨d, hd, hname⟩ := h
  exact ⟨d, hsub hd, hname⟩

/-- A count that is not zero is defined under its name. -/
theorem defined_counts {stream : VertexStream} (hpos : 0 < p.mapping.streamCount stream)
    (hname : (stream, name) ∈ [(VertexStream.normals, "NORMALS"), (.tangents, "TANGENTS")]) :
    Defined (p.defines gles) name := by
  refine (defined_count_of_pos hpos).of_subset fun d hd => ?_
  simp only [List.mem_cons, Prod.mk.injEq, List.not_mem_nil, or_false] at hname
  simp only [Plan.defines, ofCounts, List.mem_append]
  rcases hname with ⟨rfl, rfl⟩ | ⟨rfl, rfl⟩ <;> tauto

section Variant

/-- The flags that a variant sets. -/
def variantNames : List String :=
  ["SKIN_SPRITE", "GENREFLECT"]

/-- Only the variant sets the flags of a variant. -/
theorem mem_ofVariant (hd : d ∈ p.defines gles) (hname : d.name ∈ variantNames) :
    d ∈ ofVariant p := by
  have hfixed : d.name ∈ fixedNames := by
    have hall : ∀ name ∈ variantNames, name ∈ fixedNames := by decide
    exact hall _ hname
  rcases origin_of_mem hd with hstage | hprecision | ⟨name, hcounted, n, hcount⟩ |
    ⟨unit, t, hunit⟩ | ⟨register, index, hregister⟩ | hgles | hvariant
  · have hall : ∀ stage, ∀ d ∈ ofStage stage, d.name ∉ variantNames := by
      intro stage
      cases stage <;> decide
    exact absurd hname (hall p.stage d hstage)
  · have hall : ∀ precision, ∀ d ∈ ofPrecision precision, d.name ∉ variantNames := by
      intro precision
      cases precision <;> decide
    exact absurd hname (hall p.precision d hprecision)
  · have hall : ∀ name ∈ countNames, name ∉ variantNames := by decide
    exact absurd (name_of_mem_count hcount ▸ hname) (hall name hcounted)
  · exfalso
    have hall : ∀ name ∈ variantNames, name.toList.head? ≠ some 'T' := by decide
    obtain ⟨c, rest, h, -⟩ := isUnitName_of_mem hunit
    exact hall _ hname (by rw [h]; rfl)
  · have htitled := isTitled_of_mem hregister
    rw [isTitled_fixedNames hfixed] at htitled
    cases htitled
  · rw [name_of_mem_flagIf hgles] at hname
    exact absurd hname (by decide)
  · exact hvariant

theorem defined_skinSprite_iff : Defined (p.defines gles) "SKIN_SPRITE" ↔
    p.variant.skinMode = .sprite ∧ p.pass ≠ .preview := by
  constructor
  · rintro ⟨d, hd, hname⟩
    have hmem := mem_ofVariant hd (hname ▸ (by decide))
    rcases List.mem_append.1 hmem with h | h
    · unfold flagIf at h
      split at h
      · simp_all
      · cases h
    · exact absurd ((name_of_mem_flagIf h).symm.trans hname) (by decide)
  · rintro ⟨hskin, hpass⟩
    refine ⟨flag "SKIN_SPRITE", List.mem_append_right _ (List.mem_append_left _ ?_), rfl⟩
    simp [flagIf, hskin, hpass]

theorem defined_genReflect (h : p.variant.genReflect = true) :
    Defined (p.defines gles) "GENREFLECT" := by
  refine ⟨flag "GENREFLECT", List.mem_append_right _ (List.mem_append_right _ ?_), rfl⟩
  simp [flagIf, h]

end Variant

/-- A register is generated from a reflection only if some stage of the material is. -/
theorem genReflect_of_defined {register : Nat} (hstage : p.stage = .vertex)
    (h : Defined (p.defines gles) (registerTitle register ++ "GENREFLECT")) :
    p.material.genReflect = true := by
  obtain ⟨d, hd, hname⟩ := h
  have hmem : d ∈ passing (isTitled register) (p.defines gles) :=
    List.mem_filter.2 ⟨hd, hname ▸ isTitled_append register _⟩
  rw [registers_defines p gles hstage register] at hmem
  cases hindex : p.mapping.registers[register]? with
  | none =>
    rw [hindex] at hmem
    cases hmem
  | some index =>
    rw [hindex, Option.elim_some, ofRegister_eq] at hmem
    have hgen : (p.material.stage index).gen = .envmap := by
      simp only [prescribed, List.mem_append, List.mem_singleton, List.mem_map] at hmem
      rcases hmem with (rfl | ⟨t, -, rfl⟩) | hreflect
      · exact absurd ((String.append_right_inj _).1 hname) (by decide)
      · refine absurd ((String.append_right_inj _).1 hname) ?_
        cases t <;> decide
      · by_contra hgen
        rw [if_neg hgen] at hreflect
        cases hreflect
    cases htexture : p.material.textures[index.toNat]? with
    | none => simp [Material.stage, htexture] at hgen
    | some stage =>
      rw [Material.stage, htexture, Option.getD_some] at hgen
      exact List.any_eq_true.2 ⟨stage, List.mem_of_getElem? htexture, beq_iff_eq.2 hgen⟩

end Define

namespace Mapping

variable {m b : Mapping} {u : Usage} {pass : Pass} {v : Variant} {l l' : Limits}
  {material : Material} {t : TexCoordTable} {stream : VertexStream} {i : UInt8}

theorem mem_streamIndices_iff : i ∈ m.streamIndices stream ↔ ⟨stream, i⟩ ∈ m.attributes := by
  simp only [streamIndices, List.mem_map, List.mem_filter, decide_eq_true_eq]
  constructor
  · rintro ⟨a, ⟨ha, rfl⟩, rfl⟩
    exact ha
  · intro h
    exact ⟨_, ⟨h, rfl⟩, rfl⟩

/-- Previews are not skinned, and other passes are where the variant asks for it. -/
theorem exists_spriteSkin_iff (hbase : base u pass v l = .ok b)
    (hfull : full b u material l' = .ok (m, t)) :
    (∃ i, ⟨.spriteSkin, i⟩ ∈ m.attributes) ↔ v.skinMode = .sprite ∧ pass ≠ .preview := by
  have hindices : m.streamIndices .spriteSkin =
      (if pass != .preview && v.skinMode == .sprite then
        (u.indices .spriteSkin).insert 0 else .empty).toList := by
    rw [streamIndices_full hfull (by decide), streamIndices_of_attributes (attributes_base hbase)]
    simp [Usage.streams]
  simp only [← mem_streamIndices_iff, hindices]
  constructor
  · rintro ⟨i, hi⟩
    split at hi
    · simp_all
    · cases hi
  · rintro ⟨hskin, hpass⟩
    refine ⟨0, ?_⟩
    rw [if_pos (by simp [hskin, hpass])]
    exact IndexSet.mem_insert.2 (.inl rfl)

/-- A stream whose index 0 is forced has an array for it. -/
theorem zero_mem_of_forces {s : NumberedSource} (hbase : base u pass v l = .ok b)
    (hfull : full b u material l' = .ok (m, t)) (hforces : u.forces v s = true) :
    ⟨s.stream, 0⟩ ∈ m.attributes := by
  have hstream : s.stream ≠ .texCoords := by cases s <;> decide
  rw [← mem_streamIndices_iff, streamIndices_full hfull hstream, streamIndices_base hbase,
    if_pos hforces]
  exact IndexSet.mem_insert.2 (.inl rfl)

theorem streamCount_pos (hbase : base u pass v l = .ok b)
    (hfull : full b u material l' = .ok (m, t)) (hm : (m.streamIndices stream).length ≤ 255)
    (hi : ⟨stream, i⟩ ∈ m.attributes) : 0 < m.streamCount stream := by
  rw [(counted_full hbase hfull).streamCount_eq hm]
  exact List.length_pos_of_mem (mem_streamIndices_iff.2 hi)

end Mapping

theorem Usage.needsTangentBasis_of_has {u : Usage} {leaf : Leaf} (h : u.Has leaf)
    (hleaf : leaf.source.isTangentSpace = true) : u.needsTangentBasis = true := by
  have huses : u.uses leaf.source = true := by
    have hne : (u.indices leaf.source).toList ≠ [] := List.ne_nil_of_mem h
    simpa [Usage.uses, IndexSet.isEmpty] using hne
  obtain ⟨source, index⟩ := leaf
  cases source <;> simp_all [MaterialSource.isTangentSpace, Usage.needsTangentBasis]

namespace Shader

variable {resolver : Resolver} {d : Document} {v : Variant} {l l' : Limits} {r r' : Registry}
  {s : Shader} {p : ShaderPass} {pass : Pass} {material : Material} {m : Mapping}
  {t : TexCoordTable}

/-- A document changes the skin mode of a variant alone. -/
theorem genReflect_of_load (h : (load resolver l d v).run r = (.ok s, r')) :
    s.variant.genReflect = v.genReflect := by
  obtain ⟨passes, r₁, -, hrest⟩ := Loading.run_bind_eq_ok h
  split at hrest
  · cases hrest
  · cases hrest
    unfold resolveVariant
    split <;> rfl

/-- The skin flag goes with the skin stream, a reflected register with the reflection flag
and normals, and light vectors in tangent space with normals and tangents, which are defined
if they are counted exactly. Within limits that a configuration may give they are. -/
theorem variant_defines_agree (hload : (load resolver l d material.variant).run r = (.ok s, r'))
    (hp : s.pass? pass = some p) (hmap : s.mappings material pass l' = .ok (m, t))
    (materialText : String) (gles : Bool) :
    let Defined (stage : Stage) (name : String) : Prop :=
      Define.Defined ((Compiler.plan s p material m materialText stage).defines gles) name
    (∀ stage, Defined stage "SKIN_SPRITE" ↔ ∃ i, ⟨.spriteSkin, i⟩ ∈ m.attributes) ∧
    (∀ register : Nat, Defined .vertex ("TEXCOORD" ++ toString register ++ "_" ++ "GENREFLECT") →
      (∀ stage, Defined stage "GENREFLECT") ∧ ⟨.normals, 0⟩ ∈ m.attributes) ∧
    (∀ leaf, p.graph.LiveLeaf leaf → leaf.source.isTangentSpace = true →
      ⟨.normals, 0⟩ ∈ m.attributes ∧ ⟨.tangents, 0⟩ ∈ m.attributes ∧
        (m.Counts .normal → ∀ stage, Defined stage "NORMALS") ∧
        (m.Counts .tangent → ∀ stage, Defined stage "TANGENTS")) ∧
    (l.check = .ok () → ∀ a, m.Counts a) := by
  intro Defined
  obtain ⟨hsound, husage, hbase⟩ := analysed_of_load hload p (mem_of_pass? hp)
  have hfull : p.mapping.full p.usage material l' = .ok (m, t) := mappings_eq_ok hp hmap
  have hnormals (hforces : p.usage.forces s.variant .normal = true) :
      ⟨.normals, 0⟩ ∈ m.attributes := Mapping.zero_mem_of_forces hbase hfull hforces
  refine ⟨fun stage => ?skin, fun register hregister => ?reflection,
    fun leaf hleaf hsource => ?tangent, fun hl a => Accessors.counts_of_check hl hbase hfull a⟩
  case skin =>
    exact Define.defined_skinSprite_iff.trans (Mapping.exists_spriteSkin_iff hbase hfull).symm
  case reflection =>
    have hgen : s.variant.genReflect = true := by
      rw [genReflect_of_load hload]
      exact Define.genReflect_of_defined rfl hregister
    refine ⟨fun stage => Define.defined_genReflect hgen, hnormals ?_⟩
    rw [Usage.forces, hgen, Bool.or_true]
  case tangent =>
    have hbasis : p.usage.needsTangentBasis = true := by
      refine Usage.needsTangentBasis_of_has ?_ hsource
      rw [husage]
      exact (PassGraph.has_usage_iff hsound.toLinked).2 hleaf
    have hnormal := hnormals (by rw [Usage.forces, hbasis, Bool.true_or])
    have htangent : ⟨.tangents, 0⟩ ∈ m.attributes :=
      Mapping.zero_mem_of_forces (s := .tangent) hbase hfull hbasis
    refine ⟨hnormal, htangent, fun hm stage => ?_, fun hm stage => ?_⟩
    · have hpos := Mapping.streamCount_pos hbase hfull (hm .normals rfl) hnormal
      exact Define.defined_counts hpos (by decide)
    · have hpos := Mapping.streamCount_pos hbase hfull (hm .tangents rfl) htangent
      exact Define.defined_counts hpos (by decide)

section Glossy

def glossyOutputs : Document.WrittenPass where
  color := some { source := some "light_tan_vec", index := some 1 }
  alpha := some { source := some "tex_coord" }

/-- A document whose only pass reads a light in tangent space and a texture coordinate. -/
def glossy : Document where
  name := "glossy"
  passes := Table.empty.insert "Fullbright" glossyOutputs

/-- Skinned, with coordinates that come from a reflection. -/
def glossyMaterial : Material where
  skinMode := .sprite
  textures := [{ gen := .envmap }]

def glossyPass : ShaderPass where
  graph :=
    { pass := .fullbright
      graph := .empty
      color := .leaf ⟨.lightTanVec, 1⟩
      alpha := .leaf ⟨.texCoord, 0⟩ }
  usage := .ofLeaves [⟨.lightTanVec, 1⟩, ⟨.texCoord, 0⟩]
  mapping := [VertexStream.vertices, .normals, .tangents, .spriteSkin].foldl
    (fun m stream => m.pushAttribute stream 0) {}

def glossyShader : Shader where
  document := glossy
  variant := glossyMaterial.variant
  types := .empty
  passes := [glossyPass]

theorem run_load_glossy :
    (PassGraph.load (ResourceTable.resolver {}) glossy .fullbright).run .empty =
      (.ok (some glossyPass.graph), .empty) := by
  have hwire : PassGraph.wireOutputs glossy .fullbright glossyOutputs .empty =
      .ok glossyPass.graph := by
    have hcolor : PassGraph.wireOutput glossy .fullbright glossyOutputs .color ⟨.empty, []⟩ =
        .ok (.leaf ⟨.lightTanVec, 1⟩, ⟨.empty, []⟩) := PassGraph.wireOutput_leaf rfl rfl
    have halpha : PassGraph.wireOutput glossy .fullbright glossyOutputs .alpha ⟨.empty, []⟩ =
        .ok (.leaf ⟨.texCoord, 0⟩, ⟨.empty, []⟩) := PassGraph.wireOutput_leaf rfl rfl
    have hdepth : PassGraph.wireOutput glossy .fullbright glossyOutputs .depth ⟨.empty, []⟩ =
        .ok (.unbound, ⟨.empty, []⟩) := PassGraph.wireOutput_none rfl
    simp only [PassGraph.wireOutputs, hcolor, halpha, hdepth, bind, Except.bind]
    rfl
  change (Loading.ofOutcome (PassGraph.wireOutputs glossy .fullbright _ .empty) >>= _ :
    Loading _).run _ = _
  rw [hwire]
  rfl

theorem load_glossy : (load (ResourceTable.resolver {}) {} glossy glossyMaterial.variant).run
    .empty = (.ok glossyShader, .empty) :=
  load_of_single (p := glossyPass) rfl (by decide) (by decide) run_load_glossy rfl

theorem variant_defines_agree_glossy :
    ∃ m t, glossyShader.mappings glossyMaterial .fullbright {} = .ok (m, t) ∧
      m.attributes = [⟨.vertices, 0⟩, ⟨.normals, 0⟩, ⟨.tangents, 0⟩, ⟨.spriteSkin, 0⟩,
        ⟨.texCoords, 0⟩] ∧
      let defines (stage : Stage) :=
        (Compiler.plan glossyShader glossyPass glossyMaterial m "" stage).defines false
      Define.Defined (defines .vertex) "TEXCOORD0_GENREFLECT" ∧
        ∀ stage, ∀ name ∈ ["SKIN_SPRITE", "GENREFLECT", "NORMALS", "TANGENTS"],
          Define.Defined (defines stage) name := by
  obtain ⟨⟨m, t⟩, hmap, hattributes, hregisters⟩ :
      ∃ e, glossyShader.mappings glossyMaterial .fullbright {} = .ok e ∧
        e.1.attributes = [⟨.vertices, 0⟩, ⟨.normals, 0⟩, ⟨.tangents, 0⟩, ⟨.spriteSkin, 0⟩,
          ⟨.texCoords, 0⟩] ∧ e.1.registers = [0] := ⟨_, rfl, rfl, rfl⟩
  have hp : glossyShader.pass? .fullbright = some glossyPass := rfl
  have hlive : glossyPass.graph.LiveLeaf ⟨.lightTanVec, 1⟩ := .inl ⟨.color, rfl⟩
  obtain ⟨hskin, hreflection, htangent, hcounts⟩ :=
    variant_defines_agree load_glossy hp hmap "" false
  have hregister : Define.Defined ((Compiler.plan glossyShader glossyPass glossyMaterial m ""
      .vertex).defines false) "TEXCOORD0_GENREFLECT" := by
    have hprescribed : Define.flag "TEXCOORD0_GENREFLECT" ∈ Define.passing (Define.isTitled 0)
        ((Compiler.plan glossyShader glossyPass glossyMaterial m "" .vertex).defines false) := by
      have hfirst : m.registers[0]? = some 0 := by
        rw [hregisters]
        rfl
      rw [Define.registers_defines _ _ rfl]
      change _ ∈ (m.registers[0]?).elim [] (Define.ofRegister glossyMaterial 0)
      rw [hfirst]
      decide
    exact ⟨_, (List.mem_filter.1 hprescribed).1, rfl⟩
  refine ⟨m, t, hmap, hattributes, hregister, fun stage name hname => ?_⟩
  obtain ⟨-, -, hnormals, htangents⟩ := htangent _ hlive rfl
  simp only [List.mem_cons, List.not_mem_nil, or_false] at hname
  rcases hname with rfl | rfl | rfl | rfl
  · exact (hskin stage).2 ⟨0, by rw [hattributes]; decide⟩
  · exact (hreflection 0 hregister).1 stage
  · exact hnormals (hcounts rfl _) stage
  · exact htangents (hcounts rfl _) stage

end Glossy

/-- A light vector in tangent space is read beside normals of all 256 indices, which are
bound and not defined. -/
theorem normals_not_defined : ∃ s p r' m t,
    (load (ResourceTable.resolver {}) .ample
      (PassGraph.spread ⟨.lightTanVec, 0⟩ (everyIndex .normal)) ({} : Material).variant).run
        (PassGraph.spreadTypes 256) = (.ok s, r') ∧
    s.pass? .fullbright = some p ∧ s.mappings {} .fullbright .ample = .ok (m, t) ∧
    p.graph.LiveLeaf ⟨.lightTanVec, 0⟩ ∧ ⟨.normals, 0⟩ ∈ m.attributes ∧
    ∀ stage gles, ¬Define.Defined ((Compiler.plan s p {} m "" stage).defines gles) "NORMALS" := by
  obtain ⟨s, p, r', m, t, -, hload, hp, hlive, hmap, -, hhas, -⟩ :=
    exists_load_everyIndex (ResourceTable.resolver {}) ⟨.lightTanVec, 0⟩ (by decide)
      .normal (by decide) ({} : Material).variant {}
  obtain ⟨hsound, husage, hbase⟩ := analysed_of_load hload p (mem_of_pass? hp)
  have hfull := mappings_eq_ok hp hmap
  have hlight : p.usage.Has ⟨.lightTanVec, 0⟩ := by
    rw [husage]
    exact (PassGraph.has_usage_iff hsound.toLinked).2 hlive
  have hforces : p.usage.forces s.variant .normal = true := by
    rw [Usage.forces, Usage.needsTangentBasis_of_has hlight rfl, Bool.true_or]
  have hzero : m.streamCount .normals = 0 :=
    Mapping.streamCount_eq_zero (s := .normal) hbase hfull hhas
  refine ⟨s, p, r', m, t, hload, hp, hmap, hlive, Mapping.zero_mem_of_forces hbase hfull hforces,
    fun stage gles ⟨d, hd, hname⟩ => ?_⟩
  have hnone := Define.passing_count_of_zero (p := Compiler.plan s p {} m "" stage)
    (a := .normal) hzero gles
  have hmem : d ∈ Define.passing (fun name => name = Accessor.normal.count)
      ((Compiler.plan s p {} m "" stage).defines gles) :=
    List.mem_filter.2 ⟨hd, decide_eq_true hname⟩
  rw [hnone] at hmem
  cases hmem

end Shader

end MaterialGraph
