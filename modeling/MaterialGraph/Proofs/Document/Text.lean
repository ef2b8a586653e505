import MaterialGraph.Document.Text
import MaterialGraph.Proofs.Json.Parser
import MaterialGraph.Proofs.Json.Reader
import MaterialGraph.Proofs.Material
import MaterialGraph.Proofs.Table

/-!
The text form of documents. Main statement: documents and materials that were read from a
text are read again, as they are, from the text that is written of them. Of a document this
takes that it was read: an index is any integer, but only those of 64 bits can be read.
-/

namespace MaterialGraph

theorem Precision.ofName?_name (p : Precision) : ofName? p.name = some p := by
  cases p <;> rfl

namespace Document

open Json (Restores)

variable {α : Type} {read : Json → Option α} {write : α → Json}

section Tables

variable {t : Table α}

theorem table?_tableToJson (h : ∀ e ∈ t.entries, read (write e.2) = some e.2) :
    (tableToJson write t).table? read = some t := by
  have hentries : (t.entries.map fun e => (some e.1, write e.2)).mapM
      (fun (m : Option String × Json) => do
        let key ← m.1
        let value ← read m.2
        some (key, value)) = some t.entries :=
    Json.mapM_map_eq_some fun e he => by simp [h e he]
  calc (tableToJson write t).table? read
      = (some t.entries).bind fun entries => some (Table.ofList entries) :=
        congrArg (Option.bind · _) hentries
    _ = some t := by rw [Option.bind_some, Table.ofList_entries]

theorem restores_table (h : Restores read write) :
    Restores (Json.table? read) (tableToJson write) := by
  intro v t hread
  cases v with
  | object members =>
    simp only [Json.table?, Option.bind_eq_bind, Option.bind_eq_some_iff,
      Option.some.injEq] at hread
    obtain ⟨entries, hentries, rfl⟩ := hread
    refine table?_tableToJson fun e he => ?_
    have hmem : e ∈ entries := Table.mem_of_get?_ofList (Table.get?_eq_some_iff.2 he)
    obtain ⟨m, -, hm⟩ := Json.exists_of_mapM_eq_some hentries e hmem
    simp only [Option.bind_eq_some_iff, Option.some.injEq] at hm
    obtain ⟨key, -, value, hvalue, rfl⟩ := hm
    exact h hvalue
  | _ => cases hread

theorem writable_tableToJson (h : ∀ a, (write a).Writable) (t : Table α) :
    (tableToJson write t).Writable := by
  rw [tableToJson, Json.writable_object_iff, List.forall_mem_map, List.forall_mem_map]
  simp [h]

end Tables

section Options

variable {r : List (String × Json)} {field : String} {o : Option α}

/-- What is not given is written as null and read as not given, since null is no value. -/
theorem optional?_optionToJson (hnull : read .null = none)
    (h : r.lookup field = some (optionToJson write o))
    (hread : ∀ a ∈ o, read (write a) = some a) : Json.optional? r field read = some o := by
  cases o with
  | none => rw [Json.optional?, h, optionToJson]
  | some a => exact Json.optional?_of_lookup hnull h (hread a rfl)

/-- What is not given is left out. -/
theorem optional?_given (hnull : read .null = none) (h : r.lookup field = o.map write)
    (hread : ∀ a ∈ o, read (write a) = some a) : Json.optional? r field read = some o := by
  cases o with
  | none => rw [Json.optional?, h, Option.map_none]
  | some a => exact Json.optional?_of_lookup hnull h (hread a rfl)

theorem writable_optionToJson (h : ∀ a, (write a).Writable) (o : Option α) :
    (optionToJson write o).Writable := by
  cases o with
  | none => exact .null
  | some a => exact h a

end Options

namespace WrittenBinding

/-- What is written of a field that may not be given. -/
def member (name : String) (write : α → Json) (field : Option α) : List (String × Json) :=
  (field.map fun a => (name, write a)).toList

/-- The members of the record that is written of a binding. -/
def members (b : WrittenBinding) : List (String × Json) :=
  member "node" (fun s => .text (some s)) b.node ++
    member "output" (fun s => .text (some s)) b.output ++
    member "source" (fun s => .text (some s)) b.source ++ member "index" .int b.index

theorem toJson_eq (b : WrittenBinding) :
    b.toJson = .object (b.members.map fun m => (some m.1, m.2)) := by
  obtain ⟨node, output, source, index⟩ := b
  cases node <;> cases output <;> cases source <;> cases index <;> rfl

theorem names_member (name : String) (write : α → Json) (field : Option α) :
    ((member name write field).map Prod.fst).Sublist [name] := by
  cases field <;> simp [member]

theorem lookup_member (name key : String) (write : α → Json) (field : Option α) :
    (member name write field).lookup key = if key = name then field.map write else none := by
  cases field with
  | none => simp [member]
  | some a =>
    by_cases h : key = name
    · simp [member, h]
    · simp [member, List.lookup_cons, h, beq_eq_false_iff_ne.2 h]

theorem record?_toJson (b : WrittenBinding) :
    b.toJson.record? ["node", "output", "source", "index"] false = some b.members := by
  have hnames : ["node", "output", "source", "index"].Nodup := by decide
  have hsub : (b.members.map Prod.fst).Sublist ["node", "output", "source", "index"] := by
    simp only [members, List.map_append]
    exact (((names_member ..).append (names_member ..)).append (names_member ..)).append
      (names_member ..)
  rw [toJson_eq]
  exact Json.record?_written hnames hsub false

theorem lookup_members (b : WrittenBinding) :
    b.members.lookup "node" = b.node.map (fun s => .text (some s)) ∧
      b.members.lookup "output" = b.output.map (fun s => .text (some s)) ∧
      b.members.lookup "source" = b.source.map (fun s => .text (some s)) ∧
      b.members.lookup "index" = b.index.map .int := by
  simp [members, List.lookup_append, lookup_member]

theorem ofJson?_toJson (b : WrittenBinding)
    (hindex : ∀ i ∈ b.index, Json.int64? (.int i) = some i) : ofJson? b.toJson = some b := by
  obtain ⟨hnode, houtput, hsource, hlookup⟩ := lookup_members b
  have hnode : Json.optional? b.members "node" Json.text? = some b.node :=
    optional?_given rfl hnode fun _ _ => rfl
  have houtput : Json.optional? b.members "output" Json.text? = some b.output :=
    optional?_given rfl houtput fun _ _ => rfl
  have hsource : Json.optional? b.members "source" Json.text? = some b.source :=
    optional?_given rfl hsource fun _ _ => rfl
  have hindex : Json.optional? b.members "index" Json.int64? = some b.index :=
    optional?_given rfl hlookup hindex
  rw [ofJson?, record?_toJson, Option.bind_eq_bind, Option.bind_some]
  simp only [hnode, houtput, hsource, hindex, Option.bind_eq_bind, Option.bind_some]

theorem restores : Restores ofJson? toJson := by
  intro v b h
  simp only [ofJson?, Option.bind_eq_bind, Option.bind_eq_some_iff, Option.some.injEq] at h
  obtain ⟨r, -, node, -, output, -, source, -, index, hindex, rfl⟩ := h
  exact ofJson?_toJson _ (Json.restores_int64.of_optional hindex)

theorem writable (b : WrittenBinding) : b.toJson.Writable := by
  obtain ⟨node, output, source, index⟩ := b
  cases node <;> cases output <;> cases source <;> cases index <;> simp [toJson]

end WrittenBinding

namespace WrittenNode

/-- The members of the record that is written of a node. -/
def members (n : WrittenNode) : List (String × Json) :=
  [("type", .text n.type), ("in", tableToJson WrittenBinding.toJson n.inputs)]

theorem record?_toJson (n : WrittenNode) :
    n.toJson.record? ["type", "in"] false = some n.members := by
  have hnames : ["type", "in"].Nodup := by decide
  exact Json.record?_written (r := n.members) hnames (.refl _) false

theorem restores : Restores ofJson? toJson := by
  intro v n h
  simp only [ofJson?, Option.bind_eq_bind, Option.bind_eq_some_iff, Option.some.injEq] at h
  obtain ⟨r, -, type, -, inputs, hinputs, rfl⟩ := h
  have htype : Json.required? (members ⟨type, inputs⟩) "type" Json.text? = some type := rfl
  have hinputs := (restores_table WrittenBinding.restores).of_withDefault rfl hinputs
  rw [ofJson?, record?_toJson, Option.bind_eq_bind, Option.bind_some, htype,
    Json.withDefault?_of_lookup rfl hinputs]
  rfl

theorem writable (n : WrittenNode) : n.toJson.Writable := by
  simp [toJson, writable_tableToJson WrittenBinding.writable]

end WrittenNode

namespace WrittenPass

/-- The members of the record that is written of a pass. -/
def members (p : WrittenPass) : List (String × Json) :=
  [("color", optionToJson WrittenBinding.toJson p.color),
    ("alpha", optionToJson WrittenBinding.toJson p.alpha),
    ("depth", optionToJson WrittenBinding.toJson p.depth)]

theorem record?_toJson (p : WrittenPass) :
    p.toJson.record? ["color", "alpha", "depth"] false = some p.members := by
  have hnames : ["color", "alpha", "depth"].Nodup := by decide
  exact Json.record?_written (r := p.members) hnames (.refl _) false

theorem restores : Restores ofJson? toJson := by
  intro v p h
  simp only [ofJson?, Option.bind_eq_bind, Option.bind_eq_some_iff, Option.some.injEq] at h
  obtain ⟨r, -, color, hcolor, alpha, halpha, depth, hdepth, rfl⟩ := h
  have hcolor := WrittenBinding.restores.of_optional hcolor
  have halpha := WrittenBinding.restores.of_optional halpha
  have hdepth := WrittenBinding.restores.of_optional hdepth
  rw [ofJson?, record?_toJson, Option.bind_eq_bind, Option.bind_some,
    optional?_optionToJson rfl rfl hcolor, Option.bind_eq_bind, Option.bind_some,
    optional?_optionToJson rfl rfl halpha, Option.bind_some,
    optional?_optionToJson rfl rfl hdepth]
  rfl

theorem writable (p : WrittenPass) : p.toJson.Writable := by
  simp [toJson, writable_optionToJson WrittenBinding.writable]

end WrittenPass

namespace SamplerPrecision

/-- A table of precisions is no precision: what it holds is not null. -/
theorem enum?_tableToJson (t : Table Precision) :
    (tableToJson (fun p => .text (Precision.name p)) t).enum? Precision.ofName? = none := by
  unfold tableToJson Json.enum?
  split
  · next heq => cases heq
  · next heq =>
    obtain ⟨e, -, he⟩ := List.map_eq_singleton_iff.1 (Json.object.inj heq)
    cases he
  · rfl

theorem ofJson?_toJson (p : SamplerPrecision) : ofJson? p.toJson = some p := by
  cases p with
  | all p =>
    have hname : (Json.text p.name).enum? Precision.ofName? = some p := p.ofName?_name
    rw [toJson, ofJson?, hname]
  | perTexture t =>
    rw [toJson, ofJson?, enum?_tableToJson, table?_tableToJson fun e _ => e.2.ofName?_name]
    rfl

theorem writable (p : SamplerPrecision) : p.toJson.Writable := by
  cases p with
  | all p => exact .text _
  | perTexture t => exact writable_tableToJson (fun _ => .text _) t

end SamplerPrecision

/-- The members of the record that is written of a document. -/
def members (d : Document) : List (String × Json) :=
  [("name", .text d.name), ("skinMode", .text d.skinMode.name),
    ("precision", .text d.precision.name),
    ("samplerPrecision", optionToJson SamplerPrecision.toJson d.samplerPrecision),
    ("nodes", tableToJson WrittenNode.toJson d.nodes),
    ("passes", tableToJson WrittenPass.toJson d.passes)]

theorem record?_toJson (d : Document) : d.toJson.record?
    ["name", "skinMode", "precision", "samplerPrecision", "nodes", "passes"] false =
      some d.members := by
  have hnames :
    ["name", "skinMode", "precision", "samplerPrecision", "nodes", "passes"].Nodup := by decide
  exact Json.record?_written (r := d.members) hnames (.refl _) false

theorem restores : Restores ofJson? toJson := by
  intro v d h
  simp only [ofJson?, Option.bind_eq_bind, Option.bind_eq_some_iff, Option.some.injEq] at h
  obtain ⟨r, -, name, -, skinMode, -, precision, -, sampler, -, nodes, hnodes, passes, hpasses,
    rfl⟩ := h
  set d : Document := ⟨name, skinMode, precision, sampler, nodes, passes⟩
  have hname : Json.required? d.members "name" Json.text? = some d.name := rfl
  have hskin : Json.withDefault? d.members "skinMode" .default (Json.enum? SkinMode.ofName?) =
      some d.skinMode :=
    Json.withDefault?_of_lookup rfl d.skinMode.ofName?_name
  have hprecision : Json.withDefault? d.members "precision" .low (Json.enum? Precision.ofName?) =
      some d.precision :=
    Json.withDefault?_of_lookup rfl d.precision.ofName?_name
  have hsampler : Json.optional? d.members "samplerPrecision" SamplerPrecision.ofJson? =
      some d.samplerPrecision :=
    optional?_optionToJson rfl rfl fun p _ => p.ofJson?_toJson
  have hnodes : Json.withDefault? d.members "nodes" .empty (Json.table? WrittenNode.ofJson?) =
      some d.nodes :=
    Json.withDefault?_of_lookup rfl ((restores_table WrittenNode.restores).of_withDefault rfl hnodes)
  have hpasses : Json.withDefault? d.members "passes" .empty (Json.table? WrittenPass.ofJson?) =
      some d.passes :=
    Json.withDefault?_of_lookup rfl
      ((restores_table WrittenPass.restores).of_withDefault rfl hpasses)
  rw [ofJson?, record?_toJson, Option.bind_eq_bind, Option.bind_some]
  simp only [hname, hskin, hprecision, hsampler, hnodes, hpasses, Option.bind_eq_bind,
    Option.bind_some]

theorem writable (d : Document) : d.toJson.Writable := by
  simp [toJson, writable_optionToJson SamplerPrecision.writable,
    writable_tableToJson WrittenNode.writable, writable_tableToJson WrittenPass.writable]

/-- What is written of a document is what is read of it as a value. -/
theorem parse?_render (d : Document) : Json.parse? d.render = some d.toJson :=
  Json.parse?_render d.writable

theorem parse_render {text : String} {d : Document} (h : parse text = .ok d) :
    parse d.render = .ok d := by
  unfold parse at h
  split at h
  · cases h
  · next hread =>
    split at h
    · next hfaults =>
      cases h
      obtain ⟨v, -, hv⟩ := Option.bind_eq_some_iff.1 hread
      simp only [parse, parse?_render, Option.bind_some, restores hv]
      exact if_pos hfaults
    · cases h

end Document

/-- Documents and materials survive being written. Their text is that of the records that
they make up, and reading it again gives what was written. -/
theorem parse_render_of_parse :
    (∀ text d, Document.parse text = .ok d →
      Json.parse? d.render = some d.toJson ∧ Document.parse d.render = .ok d) ∧
    ∀ text m, Material.parse text = .ok m →
      Json.parse? m.render = some m.toJson ∧ Material.parse m.render = .ok m :=
  ⟨fun _ d h => ⟨d.parse?_render, Document.parse_render h⟩,
    fun _ m _ => ⟨m.parse?_render, m.parse_render⟩⟩

section Brick

def brick : Document where
  name := "brick\n"
  precision := .high
  samplerPrecision := some (.perTexture (Table.empty.insert "+1" .medium))
  nodes := Table.empty.insert "tint" ⟨"Mul", Table.empty.insert "a" { source := some "color" }⟩
  passes := Table.empty.insert "Default"
    { color := some { node := some "tint" }
      depth := some { source := some "texture", index := some (-7) } }

/-- What gives `brick`, with its fields in another order, a mode as an object and a null for
what is not given. -/
def brickJson : Json :=
  .object [(some "passes", .object [(some "Default", .object
      [(some "depth", .object [(some "index", .int (-7)), (some "source", .text "texture")]),
        (some "color", .object [(some "node", .text "tint"), (some "output", .null)])])]),
    (some "nodes", .object [(some "tint", .object [(some "type", .text "Mul"),
      (some "in", .object [(some "a", .object [(some "source", .text "color")])])])]),
    (some "samplerPrecision", .object [(some "+1", .text "medium")]),
    (some "precision", .object [(some "high", .null)]), (some "name", .text "brick\n")]

theorem parse_brickJson : Document.parse brickJson.render = .ok brick := by
  have hwritable : brickJson.Writable := by simp [brickJson]
  rw [Document.parse, Json.parse?_render hwritable]
  decide +kernel

def glazed : Material where
  textures := [{ gen := .envmap, mods := { scroll := some .sine } }]

/-- What gives `glazed`, with the second spelling of a generator and a key that is unknown. -/
def glazedJson : Json :=
  .object [(some "gloss", .int 3), (some "textures", .array [.object
    [(some "tc_mods", .object [(some "scroll", .text "sine")]), (some "tc_gen", .text "env_map")]])]

theorem parse_glazedJson : Material.parse glazedJson.render = .ok glazed := by
  have hwritable : glazedJson.Writable := by simp [glazedJson]
  rw [Material.parse, Json.parse?_render hwritable]
  decide +kernel

/-- All fields of `brick` are written, an output that the pass has not as null, but of its
bindings only what they have. -/
theorem parse_render_of_parse_brick :
    Json.parse? brick.render = some (.object [(some "name", .text "brick\n"),
      (some "skinMode", .text "default"), (some "precision", .text "high"),
      (some "samplerPrecision", .object [(some "+1", .text "medium")]),
      (some "nodes", .object [(some "tint", .object [(some "type", .text "Mul"),
        (some "in", .object [(some "a", .object [(some "source", .text "color")])])])]),
      (some "passes", .object [(some "Default", .object
        [(some "color", .object [(some "node", .text "tint")]), (some "alpha", .null),
          (some "depth", .object [(some "source", .text "texture"), (some "index", .int (-7))])])])])
      ∧ Document.parse brick.render = .ok brick ∧
    Json.parse? glazed.render = some (.object [(some "skinMode", .text "default"),
      (some "textures", .array [.object [(some "uv", .int 0), (some "tc_gen", .text "envmap"),
        (some "tc_mods", .object [(some "scroll", .text "sine")])]])]) ∧
      Material.parse glazed.render = .ok glazed := by
  obtain ⟨hdocument, hmaterial⟩ := parse_render_of_parse
  obtain ⟨hbrick, hbrick'⟩ := hdocument _ _ parse_brickJson
  obtain ⟨hglazed, hglazed'⟩ := hmaterial _ _ parse_glazedJson
  exact ⟨hbrick, hbrick', hglazed, hglazed'⟩

end Brick

end MaterialGraph
