import MaterialGraph.Assembly.Plan
import MaterialGraph.Proofs.Body.Accessor

/-!
The defines of a stage by their names. Textures and texture coordinate registers
are numbered in the names of their defines, all other names are fixed. Main
statements: a count that is not zero is defined once, and the defines that belong
to a register are those of the index that the register stands for.
-/

namespace MaterialGraph

namespace Define

/-- The defines whose names pass a test. -/
def passing (test : String → Bool) (ds : List Define) : List Define :=
  ds.filter fun d => test d.name

/-- The names that are neither numbered nor count anything. -/
def fixedNames : List String :=
  ["VERTEX", "FRAGMENT", "MATERIAL", "PRECISION_HIGH", "PRECISION_MEDIUM", "PRECISION_LOW",
    "PFLOAT", "PFLOAT2", "PFLOAT3", "PFLOAT4", "PRECISION_COLOR_TYPE", "_GLES", "SKIN_SPRITE",
    "GENREFLECT"]

def countNames : List String :=
  ["TEXTURES", "TEXCOORDS", "COLORS", "LIGHTS", "NORMALS", "TANGENTS", "BITANGENTS"]

/-- What the names of the defines of a register start with. -/
def registerTitle (register : Nat) : String :=
  "TEXCOORD" ++ toString register ++ "_"

def isTitled (register : Nat) (name : String) : Bool :=
  (registerTitle register).toList.isPrefixOf name.toList

/-- Whether a name is the start of a texture unit's. -/
def IsUnitName (name : String) : Prop :=
  ∃ c rest, name.toList = 'T' :: c :: rest ∧ c.isDigit = true

variable {test : String → Bool} {ds es : List Define} {d : Define} {name : String}
  {register other n : Nat} {p : Plan}

section Passing

theorem passing_append : passing test (ds ++ es) = passing test ds ++ passing test es :=
  List.filter_append ..

theorem passing_flatMap {α : Type} (test : String → Bool) (f : α → List Define) (l : List α) :
    passing test (l.flatMap f) = l.flatMap fun x => passing test (f x) :=
  List.filter_flatMap ..

theorem passing_eq_nil (h : ∀ d ∈ ds, test d.name = false) : passing test ds = [] := by
  apply List.filter_eq_nil_iff.2
  intro d hd
  rw [h d hd]
  exact Bool.false_ne_true

theorem passing_eq_self (h : ∀ d ∈ ds, test d.name = true) : passing test ds = ds :=
  List.filter_eq_self.2 h

theorem name_of_mem_count (hd : d ∈ count name n) : d.name = name := by
  unfold count at hd
  split at hd
  · exact absurd hd List.not_mem_nil
  · rw [List.mem_singleton.1 hd]
    rfl

theorem name_of_mem_flagIf {condition : Bool} (hd : d ∈ flagIf condition name) : d.name = name := by
  unfold flagIf at hd
  split at hd
  · rw [List.mem_singleton.1 hd]
    rfl
  · exact absurd hd List.not_mem_nil

theorem passing_count (test : String → Bool) (name : String) (n : Nat) :
    passing test (count name n) = if test name then count name n else [] := by
  split
  · next h => exact passing_eq_self fun d hd => (name_of_mem_count hd).symm ▸ h
  · next h => exact passing_eq_nil fun d hd => (name_of_mem_count hd).symm ▸ Bool.eq_false_iff.2 h

end Passing

section Names

theorem name_of_mem_ofStage {s : Stage} (hd : d ∈ ofStage s) : d.name ∈ fixedNames := by
  have hall : ∀ d ∈ ofStage s, d.name ∈ fixedNames := by cases s <;> decide
  exact hall d hd

theorem name_of_mem_ofPrecision {q : Precision} (hd : d ∈ ofPrecision q) :
    d.name ∈ fixedNames := by
  have hall : ∀ d ∈ ofPrecision q, d.name ∈ fixedNames := by cases q <;> decide
  exact hall d hd

theorem name_of_mem_ofVariant (hd : d ∈ ofVariant p) : d.name ∈ fixedNames := by
  rcases List.mem_append.1 hd with hskin | hreflect
  · rw [name_of_mem_flagIf hskin]
    decide
  · rw [name_of_mem_flagIf hreflect]
    decide

theorem isUnitName_of_mem {unit : Nat} {t : TextureUnit} (hd : d ∈ ofTextureUnit p unit t) :
    IsUnitName d.name := by
  obtain ⟨c, rest, hdigits, hc⟩ := exists_toDigits_eq_cons unit
  simp only [ofTextureUnit, List.mem_cons, List.not_mem_nil, or_false] at hd
  rcases hd with rfl | rfl
  · refine ⟨c, rest ++ "TYPE".toList, ?_, hc⟩
    rw [valued, toList_numbered, hdigits]
    rfl
  · refine ⟨c, rest ++ "PRECISION".toList, ?_, hc⟩
    rw [valued, toList_numbered, hdigits]
    rfl

theorem isTitled_append (register : Nat) (suffix : String) :
    isTitled register (registerTitle register ++ suffix) = true := by
  rw [isTitled, String.toList_append]
  exact List.isPrefixOf_iff_prefix.2 (List.prefix_append ..)

theorem isTitled_of_mem {m : Material} {index : UInt8} (hd : d ∈ ofRegister m register index) :
    isTitled register d.name = true := by
  rcases List.mem_append.1 hd with hfirst | hreflect
  · rcases List.mem_cons.1 hfirst with rfl | hmods
    · exact isTitled_append register _
    · obtain ⟨t, -, ht⟩ := List.mem_flatMap.1 hmods
      rw [name_of_mem_flagIf ht]
      exact isTitled_append register _
  · rw [name_of_mem_flagIf hreflect]
    exact isTitled_append register _

theorem toList_of_isTitled (h : isTitled register name = true) :
    ∃ rest, name.toList =
      "TEXCOORD".toList ++ (Nat.toDigits 10 register ++ ("_".toList ++ rest)) := by
  obtain ⟨rest, hrest⟩ := List.isPrefixOf_iff_prefix.1 h
  refine ⟨rest, ?_⟩
  rw [← hrest, registerTitle, toList_numbered, List.append_assoc, List.append_assoc]

/-- A name belongs to one register at most. -/
theorem isTitled_unique (h : isTitled register name = true) (ho : isTitled other name = true) :
    register = other := by
  obtain ⟨rest, hrest⟩ := toList_of_isTitled h
  obtain ⟨rest', hrest'⟩ := toList_of_isTitled ho
  have hdigits := List.append_cancel_left (hrest.symm.trans hrest')
  exact (toDigits_append_inj rfl rfl hdigits).1

theorem IsUnitName.not_isTitled (h : IsUnitName name) (register : Nat) :
    isTitled register name = false := by
  obtain ⟨c, rest, hname, hc⟩ := h
  apply Bool.eq_false_iff.2
  intro htitled
  obtain ⟨rest', hname'⟩ := toList_of_isTitled htitled
  have hcons : 'T' :: c :: rest = 'T' :: 'E' :: _ := hname.symm.trans hname'
  simp only [List.cons.injEq, true_and] at hcons
  rw [hcons.1] at hc
  exact absurd hc (by decide)

theorem IsUnitName.exists_digit (h : IsUnitName name) : ∃ c ∈ name.toList, c.isDigit = true := by
  obtain ⟨c, rest, hname, hc⟩ := h
  refine ⟨c, ?_, hc⟩
  rw [hname]
  exact List.mem_cons_of_mem _ List.mem_cons_self

theorem exists_digit_of_isTitled (h : isTitled register name = true) :
    ∃ c ∈ name.toList, c.isDigit = true := by
  obtain ⟨rest, hname⟩ := toList_of_isTitled h
  obtain ⟨c, digits, hdigits, hc⟩ := exists_toDigits_eq_cons register
  refine ⟨c, ?_, hc⟩
  rw [hname, hdigits]
  exact List.mem_append_right _ List.mem_cons_self

/-- No count is numbered. -/
theorem not_isDigit_of_mem_countNames (h : name ∈ countNames) :
    ¬∃ c ∈ name.toList, c.isDigit = true := by
  have hall : (countNames.all fun name => name.toList.all fun c => !c.isDigit) = true := by decide
  rintro ⟨c, hc, hdigit⟩
  have hplain := List.all_eq_true.1 (List.all_eq_true.1 hall name h) c hc
  rw [hdigit] at hplain
  cases hplain

end Names

section Origin

theorem origin_of_mem_ofTextures (hd : d ∈ ofTextures p) :
    (∃ n, d ∈ count "TEXTURES" n) ∨ ∃ unit t, d ∈ ofTextureUnit p unit t := by
  rcases List.mem_append.1 hd with hcount | hunits
  · exact .inl ⟨_, hcount⟩
  · obtain ⟨⟨t, unit⟩, -, hmem⟩ := List.mem_flatMap.1 hunits
    exact .inr ⟨unit, t, hmem⟩

theorem origin_of_mem_ofRegisters (hd : d ∈ ofRegisters p) :
    (∃ n, d ∈ count "TEXCOORDS" n) ∨ ∃ register index, d ∈ ofRegister p.material register index := by
  rcases List.mem_append.1 hd with hcount | hregisters
  · exact .inl ⟨_, hcount⟩
  · cases hstage : p.stage with
    | fragment =>
      rw [hstage] at hregisters
      cases hregisters
    | vertex =>
      rw [hstage] at hregisters
      obtain ⟨⟨index, register⟩, -, hmem⟩ := List.mem_flatMap.1 hregisters
      exact .inr ⟨register, index, hmem⟩

theorem origin_of_mem_ofCounts (hd : d ∈ ofCounts p) : ∃ name ∈ countNames, ∃ n, d ∈ count name n := by
  simp only [ofCounts, List.mem_append] at hd
  rcases hd with (((h | h) | h) | h) | h <;> exact ⟨_, by decide, _, h⟩

/-- Where a define comes from: one that counts comes from any of three blocks. -/
theorem origin_of_mem {gles : Bool} (hd : d ∈ p.defines gles) :
    d ∈ ofStage p.stage ∨ d ∈ ofPrecision p.precision ∨
      (∃ name ∈ countNames, ∃ n, d ∈ count name n) ∨ (∃ unit t, d ∈ ofTextureUnit p unit t) ∨
      (∃ register index, d ∈ ofRegister p.material register index) ∨
      d ∈ flagIf gles "_GLES" ∨ d ∈ ofVariant p := by
  simp only [Plan.defines, List.mem_append] at hd
  rcases hd with (((((hstage | hprecision) | htextures) | hregisters) | hcounts) | hgles) | hvariant
  · exact .inl hstage
  · exact .inr (.inl hprecision)
  · rcases origin_of_mem_ofTextures htextures with ⟨n, hcount⟩ | hunit
    · exact .inr (.inr (.inl ⟨_, by decide, n, hcount⟩))
    · exact .inr (.inr (.inr (.inl hunit)))
  · rcases origin_of_mem_ofRegisters hregisters with ⟨n, hcount⟩ | hregister
    · exact .inr (.inr (.inl ⟨_, by decide, n, hcount⟩))
    · exact .inr (.inr (.inr (.inr (.inl hregister))))
  · exact .inr (.inr (.inl (origin_of_mem_ofCounts hcounts)))
  · exact .inr (.inr (.inr (.inr (.inr (.inl hgles)))))
  · exact .inr (.inr (.inr (.inr (.inr (.inr hvariant)))))

end Origin

section Blocks

variable (p) (gles : Bool)

/-- Only textures, registers and counts have names that are not fixed. -/
theorem passing_defines (test : String → Bool) (h : ∀ name ∈ fixedNames, test name = false) :
    passing test (p.defines gles) =
      passing test (ofTextures p) ++ passing test (ofRegisters p) ++ passing test (ofCounts p) := by
  have hgles : ∀ d ∈ flagIf gles "_GLES", d.name ∈ fixedNames := by
    intro d hd
    rw [name_of_mem_flagIf hd]
    decide
  have hstage := passing_eq_nil fun d hd => h _ (name_of_mem_ofStage (s := p.stage) (d := d) hd)
  have hprecision := passing_eq_nil fun d hd =>
    h _ (name_of_mem_ofPrecision (q := p.precision) (d := d) hd)
  have hvariant := passing_eq_nil fun d hd => h _ (name_of_mem_ofVariant (p := p) (d := d) hd)
  have hflag := passing_eq_nil fun d hd => h _ (hgles d hd)
  simp only [Plan.defines, passing_append, hstage, hprecision, hvariant, hflag, List.nil_append,
    List.append_nil, List.append_assoc]

theorem passing_ofTextures (test : String → Bool)
    (h : ∀ name, IsUnitName name → test name = false) :
    passing test (ofTextures p) = passing test (count "TEXTURES" p.mapping.textures.length) := by
  rw [ofTextures, passing_append]
  refine (congrArg _ (passing_eq_nil fun d hd => ?_)).trans (List.append_nil _)
  obtain ⟨e, -, hunit⟩ := List.mem_flatMap.1 hd
  exact h _ (isUnitName_of_mem hunit)

theorem passing_ofRegisters (test : String → Bool)
    (h : ∀ register name, isTitled register name = true → test name = false) :
    passing test (ofRegisters p) =
      passing test (count "TEXCOORDS" p.mapping.registers.length) := by
  rw [ofRegisters, passing_append]
  refine (congrArg _ (passing_eq_nil fun d hd => ?_)).trans (List.append_nil _)
  cases hstage : p.stage with
  | vertex =>
    rw [hstage] at hd
    obtain ⟨e, -, hregister⟩ := List.mem_flatMap.1 hd
    exact h _ _ (isTitled_of_mem hregister)
  | fragment =>
    rw [hstage] at hd
    exact absurd hd List.not_mem_nil

/-- A count that is not zero is defined once. -/
theorem counts_defines (a : Accessor) :
    passing (fun name => name = a.count) (p.defines gles) =
      count a.count (Accessors.counted p.usage p.mapping a) := by
  have hcount : a.count ∈ countNames := by cases a <;> decide
  have hdigit := not_isDigit_of_mem_countNames hcount
  have hfixed : ∀ name ∈ fixedNames, ∀ other ∈ countNames, name ≠ other := by decide
  have hunits := passing_ofTextures p (fun name => name = a.count) fun name hname => by
    refine decide_eq_false fun heq => hdigit ?_
    exact heq ▸ hname.exists_digit
  have hregisters := passing_ofRegisters p (fun name => name = a.count) fun _ name hname => by
    refine decide_eq_false fun heq => hdigit ?_
    exact heq ▸ exists_digit_of_isTitled hname
  rw [passing_defines p gles _ fun name hname => decide_eq_false (hfixed name hname _ hcount),
    hunits, hregisters, ofCounts]
  simp only [passing_append, passing_count]
  cases a <;> simp [Accessor.count, Accessors.counted]

/-- What is taken for one position of a list. -/
theorem flatMap_zipIdx_eq {α β : Type} (f : α → Nat → List β) (k : Nat) (l : List α) (start : Nat) :
    ((l.zipIdx start).flatMap fun e => if start + k = e.2 then f e.1 e.2 else []) =
      (l[k]?).elim [] fun x => f x (start + k) := by
  induction l generalizing start k with
  | nil => rfl
  | cons x rest ih =>
    rw [List.zipIdx_cons, List.flatMap_cons]
    cases k with
    | zero =>
      have hnone : ((rest.zipIdx (start + 1)).flatMap fun e =>
          if start + 0 = e.2 then f e.1 e.2 else []) = [] := by
        apply List.flatMap_eq_nil_iff.2
        intro e he
        have hle := List.le_snd_of_mem_zipIdx he
        apply if_neg
        omega
      rw [hnone]
      simp
    | succ k =>
      have hne : ¬start + (k + 1) = start := by omega
      have hshift : start + (k + 1) = start + 1 + k := by omega
      rw [if_neg hne, List.nil_append, List.getElem?_cons_succ, hshift, ih]

theorem isTitled_fixedNames (hname : name ∈ fixedNames) (register : Nat) :
    isTitled register name = false := by
  have hall : ∀ name ∈ fixedNames, ¬"TEXCOORD".toList <+: name.toList := by decide
  apply Bool.eq_false_iff.2
  intro htitled
  obtain ⟨rest, hrest⟩ := toList_of_isTitled htitled
  exact hall name hname ⟨_, hrest.symm⟩

theorem passing_isTitled_count (hname : name ∈ countNames) (register n : Nat) :
    passing (isTitled register) (count name n) = [] := by
  have huntitled : ¬isTitled register name = true := fun htitled =>
    not_isDigit_of_mem_countNames hname (exists_digit_of_isTitled htitled)
  rw [passing_count, if_neg huntitled]

theorem passing_isTitled_ofRegister (m : Material) (register other : Nat) (index : UInt8) :
    passing (isTitled register) (ofRegister m other index) =
      if register = other then ofRegister m other index else [] := by
  split
  · next heq => exact passing_eq_self fun d hd => heq ▸ isTitled_of_mem hd
  · next hne =>
    apply passing_eq_nil
    intro d hd
    apply Bool.eq_false_iff.2
    intro htitled
    exact hne (isTitled_unique htitled (isTitled_of_mem hd))

theorem passing_isTitled_ofRegisters (hstage : p.stage = .vertex) (register : Nat) :
    passing (isTitled register) (ofRegisters p) =
      (p.mapping.registers[register]?).elim [] (ofRegister p.material register) := by
  have hselect := flatMap_zipIdx_eq (fun index register => ofRegister p.material register index)
    register p.mapping.registers 0
  simp only [Nat.zero_add] at hselect
  rw [ofRegisters, hstage, passing_append, passing_isTitled_count (by decide), List.nil_append,
    passing_flatMap, ← hselect]
  simp only [passing_isTitled_ofRegister]

/-- The defines with the title of a register are those of its canonical index. -/
theorem registers_defines (hstage : p.stage = .vertex) (register : Nat) :
    passing (isTitled register) (p.defines gles) =
      (p.mapping.registers[register]?).elim [] (ofRegister p.material register) := by
  have htextures : passing (isTitled register) (ofTextures p) = [] := by
    rw [passing_ofTextures p _ fun name hname => hname.not_isTitled register,
      passing_isTitled_count (by decide)]
  have hcounts : passing (isTitled register) (ofCounts p) = [] := by
    simp (disch := decide) only [ofCounts, passing_append, passing_isTitled_count, List.nil_append]
  rw [passing_defines p gles _ fun name hname => isTitled_fixedNames hname register, htextures,
    hcounts, passing_isTitled_ofRegisters p hstage, List.nil_append, List.append_nil]

end Blocks

end Define

end MaterialGraph
