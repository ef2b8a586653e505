import MaterialGraph.Proofs.Registry
import MaterialGraph.Proofs.Text.Number
import MaterialGraph.Proofs.Text.Order

/-!
Which descriptions of node types are accepted. A description is well formed if each of
its pins is and the registers of each side are as calls need them. Main statement: exactly
the well-formed descriptions are accepted, with one pin for each described one, in an order
in which names and the returned output are found without ambiguity.
-/

namespace MaterialGraph.NodeType

open Description (isIdentifier checkPin checkPins inputFaults outputFaults aliasFaults)

/-- Whether a text deserialises to a description. -/
def Describes (text : String) (d : Description) : Prop :=
  (Json.parse? text).bind Description.ofJson? = some d

/-- Whether a described pin has a known type, a register of 32 bits and an identifier as name. -/
structure PinDescription.WellFormed (name : String) (d : PinDescription) : Prop where
  type : ∃ type, d.tag.resolve? = some type
  register : -0x80000000 ≤ d.register ∧ d.register < 0x80000000
  name : isIdentifier name = true

/-- Whether a pin is the one that an entry describes. -/
structure PinDescription.Gives (e : String × PinDescription) (p : Pin) : Prop where
  name : p.name = e.1
  type : e.2.tag.resolve? = some p.type
  semantic : p.semantic = e.2.semantic
  register : p.register = e.2.register

def registers (entries : List (String × PinDescription)) : List Int :=
  entries.map fun e => e.2.register

/-- Whether the inputs of a description and its outputs can be the pins of a type. -/
structure Description.WellFormed (d : Description) (outputs : Table PinDescription) : Prop where
  given : d.outputs = some outputs
  inputPins : ∀ e ∈ d.inputs.entries, e.2.WellFormed e.1
  outputPins : ∀ e ∈ outputs.entries, e.2.WellFormed e.1
  inputs_nonneg : ∀ r ∈ registers d.inputs.entries, 0 ≤ r
  inputs_nodup : (registers d.inputs.entries).Nodup
  outputs_le : ∀ r ∈ registers outputs.entries, returnRegister ≤ r
  outputs_count : (registers outputs.entries).count returnRegister ≤ 1
  aliasName : ∀ a, d.aliasName = some a → isIdentifier a = true

/-- Whether a type has a name, and the alias and the pins of a description. -/
structure AsDescribed (t : NodeType) (name : String) (d : Description)
    (outputs : Table PinDescription) : Prop where
  name : t.name = name
  aliasName : t.aliasName = d.aliasName
  inputs : List.Forall₂ PinDescription.Gives d.inputs.entries t.inputs
  outputs : List.Forall₂ PinDescription.Gives outputs.entries t.outputs

/-- Whether the pins of a type are in the order of their names, and a pin that is looked
for is the only one. -/
structure Unambiguous (t : NodeType) : Prop where
  inputs : t.inputs.Pairwise fun p q => Text.toBytes p.name < Text.toBytes q.name
  outputs : t.outputs.Pairwise fun p q => Text.toBytes p.name < Text.toBytes q.name
  findInput? : ∀ name k, t.findInput? name = some k ↔ ∃ p, t.inputs[k]? = some p ∧ p.name = name
  findOutput? : ∀ name k,
    t.findOutput? name = some k ↔ ∃ p, t.outputs[k]? = some p ∧ p.name = name
  findReturn? : ∀ k, t.findOutputRegister? returnRegister = some k ↔
    ∃ p, t.outputs[k]? = some p ∧ p.register = returnRegister

section Identifiers

theorem isDigit_eq_false_of_isAlpha {c : Char} (h : c.isAlpha = true) : c.isDigit = false := by
  rw [← Bool.not_eq_true]
  intro hdigit
  have hdigits : ∀ k < 10, (Nat.digitChar k).isAlpha = false := by decide
  obtain ⟨k, hk, rfl, -⟩ := exists_digitChar_eq hdigit
  cases (hdigits k hk).symm.trans h

/-- An identifier has nothing but ASCII letters, digits and underscores, and starts with one
that is no digit. -/
theorem isIdentifier_iff {s : String} : isIdentifier s = true ↔
    (∀ c ∈ s.toList, c.isAlphanum = true ∨ c = '_') ∧
      ∃ c, s.toList.head? = some c ∧ c.isDigit = false := by
  unfold isIdentifier
  cases s.toList with
  | nil => simp
  | cons c rest =>
    have hfirst : c.isAlpha = true ∨ c = '_' ↔
        (c.isAlphanum = true ∨ c = '_') ∧ c.isDigit = false := by
      rw [Char.isAlphanum, Bool.or_eq_true]
      constructor
      · rintro (halpha | rfl)
        · exact ⟨.inl (.inl halpha), isDigit_eq_false_of_isAlpha halpha⟩
        · exact ⟨.inr rfl, rfl⟩
      · rintro ⟨(halpha | hdigit) | hunderscore, hnot⟩
        · exact .inl halpha
        · cases hnot.symm.trans hdigit
        · exact .inr hunderscore
    simp only [Bool.and_eq_true, Bool.or_eq_true, beq_iff_eq, List.all_eq_true, hfirst,
      List.forall_mem_cons, List.head?_cons, Option.some.injEq, exists_eq_left', and_right_comm]

theorem notMem_of_isIdentifier {s : String} (h : isIdentifier s = true) {c : Char}
    (hc : c.isAlphanum = false) (hunderscore : c ≠ '_') : c ∉ s.toList := fun hmem =>
  ((isIdentifier_iff.1 h).1 c hmem).elim (Bool.eq_false_iff.1 hc) hunderscore

/-- Whether what follows an identifier does not continue it. -/
def EndsName (s : List Char) : Prop :=
  ∀ c, s.head? = some c → c.isAlphanum = false ∧ c ≠ '_'

theorem endsName_cons {c : Char} (hc : c.isAlphanum = false) (hunderscore : c ≠ '_')
    (s : List Char) : EndsName (c :: s) := by
  intro d hd
  obtain rfl : c = d := Option.some.inj hd
  exact ⟨hc, hunderscore⟩

/-- An identifier can be told from what follows it. -/
theorem identifier_append_inj {a b : String} (ha : isIdentifier a = true)
    (hb : isIdentifier b = true) {s t : List Char} (hs : EndsName s) (ht : EndsName t)
    (h : a.toList ++ s = b.toList ++ t) : a = b ∧ s = t := by
  have hname {x : String} (hx : isIdentifier x = true) :
      ∀ c ∈ x.toList, (c.isAlphanum || c == '_') = true := by
    simpa using (isIdentifier_iff.1 hx).1
  have hend {x : List Char} (hx : EndsName x) :
      x.takeWhile (fun c => c.isAlphanum || c == '_') = [] := by
    cases x with
    | nil => rfl
    | cons c rest => simp [hx c rfl]
  obtain ⟨hnames, hrest⟩ := takeWhile_append_inj (hname ha) (hname hb) (hend hs) (hend ht) h
  exact ⟨String.toList_injective hnames, hrest⟩

end Identifiers

section Pins

variable {side : Side} {name : String} {d : PinDescription}
  {entries : List (String × PinDescription)} {pins : List Pin}

theorem checkPin_of_wellFormed (h : d.WellFormed name) (side : Side) :
    ∃ p, checkPin side name d = ([], some p) ∧ PinDescription.Gives (name, d) p := by
  obtain ⟨type, htype⟩ := h.type
  have hregister : ¬(d.register < -0x80000000 ∨ 0x80000000 ≤ d.register) := by
    have := h.register
    omega
  refine ⟨⟨name, type, d.semantic, d.register⟩, ?_, rfl, htype, rfl, rfl⟩
  simp [checkPin, htype, hregister, h.name]

theorem wellFormed_of_checkPin (h : (checkPin side name d).1 = []) : d.WellFormed name := by
  unfold checkPin at h
  split at h
  · cases h
  · next type htype =>
    split at h
    · cases h
    · next hregister =>
      split at h
      · next hname => exact ⟨⟨type, htype⟩, by omega, hname⟩
      · cases h

/-- No pin has a fault exactly if all are well formed, and then none of them is dropped. -/
theorem gives_of_wellFormed (h : ∀ e ∈ entries, e.2.WellFormed e.1) (side : Side) :
    (entries.map fun e => checkPin side e.1 e.2).flatMap (·.1) = [] ∧
      List.Forall₂ PinDescription.Gives entries
        ((entries.map fun e => checkPin side e.1 e.2).filterMap (·.2)) := by
  induction entries with
  | nil => exact ⟨rfl, .nil⟩
  | cons e rest ih =>
    rw [List.forall_mem_cons] at h
    obtain ⟨p, hcheck, hgives⟩ := checkPin_of_wellFormed h.1 side
    obtain ⟨hfaults, hpins⟩ := ih h.2
    simp only [List.map_cons, hcheck, List.flatMap_cons, List.nil_append, List.filterMap_cons]
    exact ⟨hfaults, .cons hgives hpins⟩

theorem registers_eq (h : List.Forall₂ PinDescription.Gives entries pins) :
    pins.map Pin.register = registers entries := by
  induction h with
  | nil => rfl
  | cons hgives _ ih => rw [List.map_cons, hgives.register, ih, registers, registers, List.map_cons]

theorem names_eq (h : List.Forall₂ PinDescription.Gives entries pins) :
    pins.map Pin.name = entries.map Prod.fst := by
  induction h with
  | nil => rfl
  | cons hgives _ ih => rw [List.map_cons, List.map_cons, hgives.name, ih]

end Pins

section Registers

theorem inputFaults_eq_nil_iff (seen : List Int) (pins : List Pin) :
    inputFaults seen pins = [] ↔
      (∀ r ∈ pins.map Pin.register, 0 ≤ r ∧ r ∉ seen) ∧ (pins.map Pin.register).Nodup := by
  -- Along the check, which adds the registers it passes to those seen.
  induction pins generalizing seen with
  | nil => simp [inputFaults]
  | cons p rest ih =>
    rw [inputFaults, List.map_cons, List.forall_mem_cons, List.nodup_cons]
    split
    · next hneg =>
      simp only [List.cons_ne_nil, false_iff]
      omega
    · next hnonneg =>
      have hpos : 0 ≤ p.register := by omega
      split
      · next hseen =>
        have hmem : p.register ∈ seen := List.contains_iff_mem.1 hseen
        simp [hmem]
      · next hnew =>
        have hmem : p.register ∉ seen := fun hmem => hnew (List.contains_iff_mem.2 hmem)
        simp only [ih, List.mem_cons, not_or]
        constructor
        · intro h
          refine ⟨⟨⟨hpos, hmem⟩, fun r hr => ⟨(h.1 r hr).1, (h.1 r hr).2.2⟩⟩, fun hr => ?_, h.2⟩
          exact (h.1 _ hr).2.1 rfl
        · intro h
          refine ⟨fun r hr => ⟨(h.1.2 r hr).1, fun heq => h.2.1 (heq ▸ hr), (h.1.2 r hr).2⟩, h.2.2⟩

theorem outputFaults_eq_nil_iff (pins : List Pin) :
    outputFaults pins = [] ↔ (pins.map Pin.register).count returnRegister ≤ 1 ∧
      ∀ r ∈ pins.map Pin.register, returnRegister ≤ r := by
  have hcount : (pins.map Pin.register).count returnRegister =
      (pins.filter fun p => p.register == returnRegister).length := by
    rw [List.count, List.countP_map, List.countP_eq_length_filter]
    rfl
  rw [outputFaults, List.append_eq_nil_iff, hcount, List.forall_mem_map]
  refine and_congr ?_ ?_
  · split
    · next h => simp; omega
    · next h => simp; omega
  · rw [Option.toList_eq_nil_iff, Option.map_eq_none_iff, List.find?_eq_none]
    simp

theorem aliasFaults_eq_nil_iff (aliasName : Option String) :
    aliasFaults aliasName = [] ↔ ∀ a, aliasName = some a → isIdentifier a = true := by
  cases aliasName with
  | none => simp [aliasFaults]
  | some a =>
    by_cases ha : isIdentifier a
    · simp [aliasFaults, ha]
    · simp [aliasFaults, ha]

end Registers

section Check

variable {d : Description} {outputs : Table PinDescription} {name : String} {t : NodeType}

theorem checkPins_eq (side : Side) (t : Table PinDescription) :
    checkPins side t = t.entries.map fun e => checkPin side e.1 e.2 := rfl

theorem check_of_wellFormed (h : d.WellFormed outputs) (name : String) :
    ∃ t, d.check name = .ok t ∧ t.AsDescribed name d outputs := by
  obtain ⟨hinputs, hinputPins⟩ := gives_of_wellFormed h.inputPins .input
  obtain ⟨houtputs, houtputPins⟩ := gives_of_wellFormed h.outputPins .output
  rw [← checkPins_eq] at hinputs hinputPins houtputs houtputPins
  have hinputRegisters := registers_eq hinputPins
  have houtputRegisters := registers_eq houtputPins
  have hin : inputFaults [] ((checkPins .input d.inputs).filterMap (·.2)) = [] := by
    rw [inputFaults_eq_nil_iff, hinputRegisters]
    exact ⟨fun r hr => ⟨h.inputs_nonneg r hr, List.not_mem_nil⟩, h.inputs_nodup⟩
  have hout : outputFaults ((checkPins .output outputs).filterMap (·.2)) = [] := by
    rw [outputFaults_eq_nil_iff, houtputRegisters]
    exact ⟨h.outputs_count, h.outputs_le⟩
  have hfaults := (aliasFaults_eq_nil_iff d.aliasName).2 h.aliasName
  refine ⟨⟨name, _, _, d.aliasName⟩, ?_, rfl, rfl, hinputPins, houtputPins⟩
  simp only [Description.check, h.given, hinputs, houtputs, hin, hout, hfaults, List.append_nil,
    List.isEmpty_nil, if_true]

theorem wellFormed_of_flatMap {entries : List (String × PinDescription)} {side : Side}
    (h : (entries.map fun e => checkPin side e.1 e.2).flatMap (·.1) = []) :
    ∀ e ∈ entries, e.2.WellFormed e.1 := by
  intro e he
  rw [List.flatMap_eq_nil_iff] at h
  exact wellFormed_of_checkPin (h _ (List.mem_map_of_mem he))

theorem wellFormed_of_check (h : d.check name = .ok t) : ∃ outputs, d.WellFormed outputs := by
  unfold Description.check at h
  split at h
  · cases h
  · next outputs hgiven =>
    simp only at h
    split at h
    · next hempty =>
      simp only [List.isEmpty_iff, List.append_eq_nil_iff] at hempty
      obtain ⟨⟨⟨⟨hinputs, houtputs⟩, hin⟩, hout⟩, halias⟩ := hempty
      have hinputPins := wellFormed_of_flatMap hinputs
      have houtputPins := wellFormed_of_flatMap houtputs
      -- No pin was dropped, so the registers checked are all that are described.
      have hinputRegisters := registers_eq (gives_of_wellFormed hinputPins .input).2
      have houtputRegisters := registers_eq (gives_of_wellFormed houtputPins .output).2
      rw [checkPins_eq, inputFaults_eq_nil_iff, hinputRegisters] at hin
      rw [checkPins_eq, outputFaults_eq_nil_iff, houtputRegisters] at hout
      exact ⟨outputs, hgiven, hinputPins, houtputPins, fun r hr => (hin.1 r hr).1, hin.2, hout.2,
        hout.1, (aliasFaults_eq_nil_iff d.aliasName).1 halias⟩
    · cases h

end Check

section Lookup

/-- What at most one member of a list is looked for by is found at the only place. -/
theorem findIdx?_eq_some_iff_of_pairwise {α : Type} {l : List α} {p : α → Bool} {k : Nat}
    (h : l.Pairwise fun a b => ¬(p a = true ∧ p b = true)) :
    l.findIdx? p = some k ↔ ∃ a, l[k]? = some a ∧ p a = true := by
  rw [List.findIdx?_eq_some_iff_getElem]
  constructor
  · intro hfound
    obtain ⟨hlt, hp, -⟩ := hfound
    exact ⟨l[k], List.getElem?_eq_getElem hlt, hp⟩
  · intro hmem
    obtain ⟨a, ha, hp⟩ := hmem
    obtain ⟨hlt, rfl⟩ := List.getElem?_eq_some_iff.1 ha
    refine ⟨hlt, hp, fun j hj hfirst => ?_⟩
    exact List.pairwise_iff_getElem.1 h j k (Nat.lt_trans hj hlt) hlt hj ⟨hfirst, hp⟩

theorem pairwise_of_count_le_one {α : Type} [BEq α] [LawfulBEq α] {β : Type} {f : β → α} {a : α}
    {l : List β} (h : (l.map f).count a ≤ 1) :
    l.Pairwise fun b c => ¬((f b == a) = true ∧ (f c == a) = true) := by
  induction l with
  | nil => exact .nil
  | cons b rest ih =>
    rw [List.map_cons, List.count_cons] at h
    refine .cons (fun c hc hboth => ?_) (ih (by omega))
    have hrest : 0 < (rest.map f).count a := by
      refine List.count_pos_iff.2 (List.mem_map.2 ⟨c, hc, eq_of_beq hboth.2⟩)
    rw [if_pos hboth.1] at h
    omega

variable {pins : List Pin} {table : Table PinDescription}

theorem names_ascending (h : List.Forall₂ PinDescription.Gives table.entries pins) :
    pins.Pairwise fun p q => p.name < q.name := by
  have hnames := List.pairwise_map.2 table.ascending
  rw [← names_eq h, List.pairwise_map] at hnames
  exact hnames

theorem findIdx?_name_iff (h : List.Forall₂ PinDescription.Gives table.entries pins)
    (name : String) (k : Nat) :
    (pins.findIdx? fun p => p.name == name) = some k ↔
      ∃ p, pins[k]? = some p ∧ p.name = name := by
  have honce : pins.Pairwise fun p q => ¬((p.name == name) = true ∧ (q.name == name) = true) := by
    refine (names_ascending h).imp fun hlt hboth => ?_
    rw [eq_of_beq hboth.1, eq_of_beq hboth.2] at hlt
    exact String.lt_irrefl name hlt
  rw [findIdx?_eq_some_iff_of_pairwise honce]
  simp only [beq_iff_eq]

theorem AsDescribed.unambiguous {t : NodeType} {name : String} {d : Description}
    (h : t.AsDescribed name d table) (hd : d.WellFormed table) : t.Unambiguous where
  inputs := (names_ascending h.inputs).imp Text.toBytes_lt
  outputs := (names_ascending h.outputs).imp Text.toBytes_lt
  findInput? := findIdx?_name_iff h.inputs
  findOutput? := findIdx?_name_iff h.outputs
  findReturn? k := by
    have hcount := hd.outputs_count
    rw [← registers_eq h.outputs] at hcount
    rw [findOutputRegister?, findIdx?_eq_some_iff_of_pairwise (pairwise_of_count_le_one hcount)]
    simp only [beq_iff_eq]

end Lookup

/-- A text describes a type exactly if it is well formed. The type then has the pins that are
described, in the order of their names, and it is the one of every name and of the returned
output. Every other text is malformed. -/
theorem parse_exact (name text : String) :
    ((∃ t, parse name text = .ok t) ↔
        ∃ d outputs, Describes text d ∧ d.WellFormed outputs) ∧
      (∀ t, parse name text = .ok t → ∃ d outputs, Describes text d ∧ d.outputs = some outputs ∧
        t.AsDescribed name d outputs ∧ t.Unambiguous) ∧
      ∀ e, parse name text = .error e → ∃ m, e = .malformedNodeType name m := by
  have hok (t : NodeType) : parse name text = .ok t ↔
      ∃ d, Describes text d ∧ d.check name = .ok t := by
    unfold parse Describes
    cases (Json.parse? text).bind Description.ofJson? with
    | none => simp
    | some d => simp [Except.mapError_eq_ok_iff]
  refine ⟨⟨fun h => ?_, fun h => ?_⟩, fun t h => ?_, fun e h => ?_⟩
  · obtain ⟨t, ht⟩ := h
    obtain ⟨d, hd, hcheck⟩ := (hok t).1 ht
    obtain ⟨outputs, hwell⟩ := wellFormed_of_check hcheck
    exact ⟨d, outputs, hd, hwell⟩
  · obtain ⟨d, outputs, hd, hwell⟩ := h
    obtain ⟨t, hcheck, -⟩ := check_of_wellFormed hwell name
    exact ⟨t, (hok t).2 ⟨d, hd, hcheck⟩⟩
  · obtain ⟨d, hd, hcheck⟩ := (hok t).1 h
    obtain ⟨outputs, hwell⟩ := wellFormed_of_check hcheck
    obtain ⟨t', hcheck', hdescribed⟩ := check_of_wellFormed hwell name
    obtain rfl := Except.ok.inj (hcheck.symm.trans hcheck')
    exact ⟨d, outputs, hd, hwell.given, hdescribed, hdescribed.unambiguous hwell⟩
  · exact Registry.parse_eq_error h

end MaterialGraph.NodeType
