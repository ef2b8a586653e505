import MaterialGraph.Proofs.Assembly.Block
import MaterialGraph.Proofs.Assembly.Registers

/-!
The macros that a define block defines. Their names are of four kinds: fixed ones, those of
counts, those of texture units and those of registers; the last two are numbered. Main
statement: every line of a block defines a macro, and no two lines define the same one.
-/

namespace MaterialGraph

namespace Define

/-- Letters, digits and underscores make up the name of a macro. -/
def isNameChar (c : Char) : Bool :=
  c.isAlphanum || c == '_'

def isName (name : String) : Bool :=
  name.toList.all isNameChar

/-- The name that stands behind the directive of a line. -/
def macroOf? (line : List Char) : Option (List Char) :=
  (Include.after? "#define ".toList line).map (List.takeWhile isNameChar)

/-- The defines of the texture units, without their count. -/
def unitDefines (p : Plan) : List Define :=
  p.mapping.textures.zipIdx.flatMap fun (t, unit) => ofTextureUnit p unit t

/-- The defines of the registers, without their count. -/
def registerDefines (p : Plan) : List Define :=
  match p.stage with
  | .vertex =>
    p.mapping.registers.zipIdx.flatMap fun (index, register) =>
      ofRegister p.material register index
  | .fragment => []

def fixedDefines (p : Plan) (gles : Bool) : List Define :=
  ofStage p.stage ++ ofPrecision p.precision ++ flagIf gles "_GLES" ++ ofVariant p

def countDefines (p : Plan) : List Define :=
  count "TEXTURES" p.mapping.textures.length ++ count "TEXCOORDS" p.mapping.registers.length ++
    ofCounts p

/-- What follows the title in the names of the defines of a register. -/
def registerSuffixes : List String :=
  "UV" :: (TexCoordMod.all.map TexCoordMod.defineSuffix ++ ["GENREFLECT"])

variable {p : Plan} {gles : Bool} {d : Define} {name : String} {j k n : Nat}

/-- The defines of a stage by the kinds of their names. -/
theorem defines_perm (p : Plan) (gles : Bool) : (p.defines gles).Perm
    (fixedDefines p gles ++ (countDefines p ++ (unitDefines p ++ registerDefines p))) := by
  refine List.perm_iff_count.2 fun d => ?_
  have htextures : ofTextures p =
      count "TEXTURES" p.mapping.textures.length ++ unitDefines p := rfl
  have hregisters : ofRegisters p =
      count "TEXCOORDS" p.mapping.registers.length ++ registerDefines p := rfl
  simp only [Plan.defines, htextures, hregisters, fixedDefines, countDefines, List.count_append]
  omega

section Names

theorem names_count (name : String) (n : Nat) :
    ((count name n).map Define.name).Sublist [name] := by
  unfold count
  split
  · exact List.nil_sublist _
  · exact .refl _

theorem names_flagIf (condition : Bool) (name : String) :
    ((flagIf condition name).map Define.name).Sublist [name] := by
  unfold flagIf
  split
  · exact .refl _
  · exact List.nil_sublist _

theorem names_fixedDefines (p : Plan) (gles : Bool) :
    ((fixedDefines p gles).map Define.name).Sublist fixedNames := by
  have hstage : ((ofStage p.stage).map Define.name).Sublist ["VERTEX", "FRAGMENT", "MATERIAL"] := by
    cases p.stage <;> decide
  have hprecision : ((ofPrecision p.precision).map Define.name).Sublist
      ["PRECISION_HIGH", "PRECISION_MEDIUM", "PRECISION_LOW", "PFLOAT", "PFLOAT2", "PFLOAT3",
        "PFLOAT4", "PRECISION_COLOR_TYPE"] := by
    cases p.precision <;> decide
  have hvariant := (names_flagIf (p.variant.skinMode == .sprite && p.pass != .preview)
    "SKIN_SPRITE").append (names_flagIf p.variant.genReflect "GENREFLECT")
  rw [fixedDefines, List.map_append, List.map_append, List.map_append, ofVariant, List.map_append]
  exact ((hstage.append hprecision).append (names_flagIf gles "_GLES")).append hvariant

theorem names_countDefines (p : Plan) :
    ((countDefines p).map Define.name).Sublist countNames := by
  simp only [countDefines, ofCounts, List.map_append]
  exact ((names_count ..).append (names_count ..)).append
    (((((names_count ..).append (names_count ..)).append (names_count ..)).append
      (names_count ..)).append (names_count ..))

theorem names_ofRegister (m : Material) (register : Nat) (index : UInt8) :
    ((ofRegister m register index).map Define.name).Sublist
      (registerSuffixes.map (registerTitle register ++ ·)) := by
  have hmods := (List.filter_sublist (l := TexCoordMod.all)
    (p := fun t => (m.stage index).modFlags &&& t.flag != 0)).map
      fun t => registerTitle register ++ t.defineSuffix
  have hgen : ((if (m.stage index).gen = .envmap then
      [⟨registerTitle register ++ "GENREFLECT", none⟩] else [] : List Define).map
        Define.name).Sublist [registerTitle register ++ "GENREFLECT"] := by
    split
    · exact .refl _
    · exact List.nil_sublist _
  have hnames := (hmods.append hgen).cons_cons (registerTitle register ++ "UV")
  simpa [ofRegister_eq, prescribed, registerSuffixes, Function.comp_def] using hnames

end Names

section Distinct

/-- A list of parts that belong to the positions of a list. -/
theorem nodup_flatMap_zipIdx {α β : Type} {f : α → Nat → List β} (hpart : ∀ x k, (f x k).Nodup)
    (hapart : ∀ x y j k, j ≠ k → (f x j).Disjoint (f y k)) (l : List α) :
    (l.zipIdx.flatMap fun e => f e.1 e.2).Nodup := by
  have hpositions : l.zipIdx.Pairwise fun e e' => e.2 ≠ e'.2 := by
    rw [← List.pairwise_map (f := Prod.snd) (R := (· ≠ ·)), List.zipIdx_map_snd]
    exact List.nodup_range'
  rw [List.nodup_flatMap]
  exact ⟨fun e _ => hpart e.1 e.2, hpositions.imp fun hne => hapart _ _ _ _ hne⟩

theorem nodup_unitNames (p : Plan) : ((unitDefines p).map Define.name).Nodup := by
  have hname (d : Define) (unit : Nat) (t : TextureUnit) (hd : d ∈ ofTextureUnit p unit t) :
      ∃ suffix ∈ ["TYPE", "PRECISION"], d.name = "T" ++ toString unit ++ suffix := by
    simp only [ofTextureUnit, List.mem_cons, List.not_mem_nil, or_false] at hd
    rcases hd with rfl | rfl
    · exact ⟨_, List.mem_cons_self, rfl⟩
    · exact ⟨_, List.mem_cons_of_mem _ List.mem_cons_self, rfl⟩
  have hsuffix : ∀ suffix ∈ ["TYPE", "PRECISION"],
      suffix.toList.takeWhile Char.isDigit = [] := by decide
  rw [unitDefines, List.map_flatMap]
  refine nodup_flatMap_zipIdx (f := fun t unit => (ofTextureUnit p unit t).map Define.name)
    (fun t unit => ?_) (fun t t' j k hne => ?_) _
  · refine List.nodup_cons.2 ⟨fun hmem => ?_, List.nodup_singleton _⟩
    have hsuffixes := (numbered_inj (by decide) (by decide) (List.mem_singleton.1 hmem)).2
    exact absurd hsuffixes (by decide)
  · intro name hj hk
    obtain ⟨d, hd, rfl⟩ := List.mem_map.1 hj
    obtain ⟨d', hd', heq⟩ := List.mem_map.1 hk
    obtain ⟨s, hs, hname₁⟩ := hname d j t hd
    obtain ⟨s', hs', hname₂⟩ := hname d' k t' hd'
    rw [hname₁, hname₂] at heq
    exact hne (numbered_inj (hsuffix s' hs') (hsuffix s hs) heq).1.symm

theorem nodup_registerNames (p : Plan) : ((registerDefines p).map Define.name).Nodup := by
  have hsuffixes : registerSuffixes.Nodup := by decide
  rw [registerDefines]
  split
  · rw [List.map_flatMap]
    refine nodup_flatMap_zipIdx
      (f := fun index register => (ofRegister p.material register index).map Define.name)
      (fun index register => ?_) (fun index index' j k hne => ?_) _
    · refine (names_ofRegister ..).nodup (hsuffixes.map fun s t heq => ?_)
      exact String.append_right_inj _ |>.1 heq
    · intro name hj hk
      obtain ⟨d, hd, rfl⟩ := List.mem_map.1 hj
      obtain ⟨d', hd', heq⟩ := List.mem_map.1 hk
      exact hne (isTitled_unique (isTitled_of_mem hd) (heq ▸ isTitled_of_mem hd'))
  · exact List.nodup_nil

end Distinct

section Kinds

theorem isUnitName_of_mem_unitDefines (hd : d ∈ unitDefines p) : IsUnitName d.name := by
  obtain ⟨e, -, he⟩ := List.mem_flatMap.1 hd
  exact isUnitName_of_mem he

theorem isTitled_of_mem_registerDefines (hd : d ∈ registerDefines p) :
    ∃ register, isTitled register d.name = true := by
  rw [registerDefines] at hd
  split at hd
  · obtain ⟨e, -, he⟩ := List.mem_flatMap.1 hd
    exact ⟨_, isTitled_of_mem he⟩
  · cases hd

theorem not_isUnitName_of_mem_fixedNames (h : name ∈ fixedNames) : ¬IsUnitName name := by
  have hsecond : ∀ name ∈ fixedNames, (name.toList.drop 1).head?.any Char.isDigit = false := by
    decide
  rintro ⟨c, rest, hname, hc⟩
  have hplain := hsecond name h
  rw [hname] at hplain
  exact absurd (hplain.symm.trans hc) (by decide)

/-- No two defines of a stage have one name. -/
theorem nodup_names (p : Plan) (gles : Bool) : ((p.defines gles).map Define.name).Nodup := by
  have hfixed : ∀ name ∈ (fixedDefines p gles).map Define.name, name ∈ fixedNames :=
    fun _ hname => (names_fixedDefines p gles).subset hname
  have hcount : ∀ name ∈ (countDefines p).map Define.name, name ∈ countNames :=
    fun _ hname => (names_countDefines p).subset hname
  have hunit : ∀ name ∈ (unitDefines p).map Define.name, IsUnitName name := by
    simpa only [List.forall_mem_map] using fun d => isUnitName_of_mem_unitDefines
  have hregister : ∀ name ∈ (registerDefines p).map Define.name,
      ∃ register, isTitled register name = true := by
    simpa only [List.forall_mem_map] using fun d => isTitled_of_mem_registerDefines
  have hkinds : ∀ name ∈ fixedNames, name ∉ countNames := by decide
  rw [((defines_perm p gles).map Define.name).nodup_iff]
  simp only [List.map_append]
  refine List.nodup_append'.2 ⟨(names_fixedDefines p gles).nodup (by decide),
    List.nodup_append'.2 ⟨(names_countDefines p).nodup (by decide),
      List.nodup_append'.2 ⟨nodup_unitNames p, nodup_registerNames p, ?units⟩, ?counts⟩, ?fixed⟩
  case units =>
    intro name hname hname'
    obtain ⟨register, htitled⟩ := hregister name hname'
    rw [(hunit name hname).not_isTitled] at htitled
    cases htitled
  case counts =>
    intro name hname hname'
    have hdigit := not_isDigit_of_mem_countNames (hcount name hname)
    rcases List.mem_append.1 hname' with hname' | hname'
    · exact hdigit (hunit name hname').exists_digit
    · obtain ⟨register, htitled⟩ := hregister name hname'
      exact hdigit (exists_digit_of_isTitled htitled)
  case fixed =>
    intro name hname hname'
    have hmem := hfixed name hname
    rcases List.mem_append.1 hname' with hname' | hname'
    · exact hkinds name hmem (hcount name hname')
    · rcases List.mem_append.1 hname' with hname' | hname'
      · exact not_isUnitName_of_mem_fixedNames hmem (hunit name hname')
      · obtain ⟨register, htitled⟩ := hregister name hname'
        rw [isTitled_fixedNames hmem register] at htitled
        cases htitled

end Kinds

section Macros

theorem isName_append {a b : String} : isName (a ++ b) ↔ isName a ∧ isName b := by
  simp [isName, List.all_append]

theorem isName_numbered {opening closing : String} (hopening : isName opening)
    (hclosing : isName closing) (k : Nat) : isName (opening ++ toString k ++ closing) := by
  have hnumber : isName (toString k) := by
    refine List.all_eq_true.2 fun c hc => ?_
    have hdigit : c.isDigit = true := isDigit_of_mem_toString hc
    simp [isNameChar, Char.isAlphanum, hdigit]
  exact isName_append.2 ⟨isName_append.2 ⟨hopening, hnumber⟩, hclosing⟩

/-- The names of defines are names of macros. -/
theorem isName_of_mem (hd : d ∈ p.defines gles) : isName d.name := by
  have hmem : d ∈ fixedDefines p gles ++ (countDefines p ++ (unitDefines p ++ registerDefines p)) :=
    (defines_perm p gles).mem_iff.1 hd
  simp only [List.mem_append] at hmem
  rcases hmem with hmem | hmem | hmem | hmem
  · have hall : ∀ name ∈ fixedNames, isName name := by decide
    exact hall _ ((names_fixedDefines p gles).subset (List.mem_map_of_mem hmem))
  · have hall : ∀ name ∈ countNames, isName name := by decide
    exact hall _ ((names_countDefines p).subset (List.mem_map_of_mem hmem))
  · obtain ⟨⟨t, unit⟩, -, he⟩ := List.mem_flatMap.1 hmem
    simp only [ofTextureUnit, List.mem_cons, List.not_mem_nil, or_false] at he
    rcases he with rfl | rfl <;> exact isName_numbered (by decide) (by decide) unit
  · rw [registerDefines] at hmem
    split at hmem
    · obtain ⟨⟨index, register⟩, -, he⟩ := List.mem_flatMap.1 hmem
      have hall : ∀ suffix ∈ registerSuffixes, isName suffix := by decide
      have hname := (names_ofRegister ..).subset (List.mem_map_of_mem (f := Define.name) he)
      obtain ⟨suffix, hsuffix, hname⟩ := List.mem_map.1 hname
      rw [← hname]
      exact isName_append.2 ⟨isName_numbered (by decide) (by decide) register, hall suffix hsuffix⟩
    · cases hmem

/-- A line defines the macro of its define. -/
theorem macroOf?_render (h : isName d.name) :
    macroOf? d.render.toList = some d.name.toList := by
  have hline : Include.after? "#define ".toList d.render.toList = some (d.name.toList ++
      ((d.value.elim "" fun v => " " ++ v).toList ++ ['\r', '\n'])) := by
    rw [Include.after?_eq_some_iff, toList_render]
    simp
  have hend : ((d.value.elim "" fun v => " " ++ v).toList ++ ['\r', '\n']).takeWhile isNameChar =
      [] := by
    cases d.value with
    | none => decide
    | some v => simp [isNameChar]
  rw [macroOf?, hline, Option.map_some, List.takeWhile_append_of_pos (List.all_eq_true.1 h), hend,
    List.append_nil]

end Macros

end Define

/-- The lines of a define block define the macros of the defines, each another one. -/
theorem Plan.macros_distinct (p : Plan) (gles : Bool) :
    (Text.lines (p.defineBlock gles).toList).map Define.macroOf? =
        (p.defines gles).map (fun d => some d.name.toList) ∧
      ((Text.lines (p.defineBlock gles).toList).map Define.macroOf?).Nodup := by
  have hmacros : (Text.lines (p.defineBlock gles).toList).map Define.macroOf? =
      (p.defines gles).map fun d => some d.name.toList := by
    rw [Plan.lines_defineBlock, List.map_map]
    exact List.map_congr_left fun d hd => Define.macroOf?_render (Define.isName_of_mem hd)
  refine ⟨hmacros, ?_⟩
  have hinjective : Function.Injective fun name : String => some name.toList :=
    fun a b heq => String.toList_injective (Option.some.inj heq)
  have hnames := (Define.nodup_names p gles).map hinjective
  rw [hmacros]
  rwa [List.map_map] at hnames

end MaterialGraph
