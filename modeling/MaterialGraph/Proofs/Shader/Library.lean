import MaterialGraph.Proofs.Body.Callees
import MaterialGraph.Proofs.PassGraph.Reached
import MaterialGraph.Proofs.Shader.Passes
import MaterialGraph.Proofs.Text.Order

/-!
The functions of a shader: those that the bodies of its passes call, and those of
which the library has the code. Main statement: every call in a body is to the alias
of a type or to a function in the library, and the library has one function, in the
order of the names, for each type without an alias that some pass needs.
-/

namespace MaterialGraph

namespace Body

/-- The names of the types that have a function of their own. -/
def ownNames (types : List (String × NodeType)) : List String :=
  (types.filter fun e => e.2.aliasName.isNone).map Prod.fst

/-- The code of a function under a line with its name. -/
def codeBlock (name code : String) : String :=
  "// Nodes/" ++ name ++ ".code\r\n" ++ code ++ "\r\n"

theorem ownNames_cons (name : String) (type : NodeType) (rest : List (String × NodeType)) :
    ownNames ((name, type) :: rest) =
      if type.aliasName.isSome then ownNames rest else name :: ownNames rest := by
  unfold ownNames
  cases halias : type.aliasName with
  | none => rw [List.filter_cons_of_pos (by simp [halias])]; rfl
  | some a => rw [List.filter_cons_of_neg (by simp [halias])]; rfl

/-- The library has one block for each function, unless there is no code for one; then
it fails with the first such. -/
theorem library_eq {texts : Resolver} {codes : String → Option String}
    (h : ∀ name, texts.resolve .nodeCode name = .ok (codes name))
    (types : List (String × NodeType)) :
    library texts types = match (ownNames types).find? fun name => (codes name).isNone with
      | some name => .error (.compile (.missingInclude (texts.place .nodeCode name)))
      | none => .ok (String.join ((ownNames types).map fun name =>
          codeBlock name ((codes name).getD ""))) := by
  induction types with
  | nil => rfl
  | cons e rest ih =>
    obtain ⟨name, type⟩ := e
    rw [ownNames_cons, library]
    split
    · exact ih
    · rw [h, List.find?_cons]
      cases hcode : codes name with
      | none => rfl
      | some code =>
        simp only [bind, Except.bind, ih]
        cases (ownNames rest).find? fun name => (codes name).isNone with
        | some missing => rfl
        | none => simp [codeBlock, hcode, String.append_assoc]

end Body

namespace Shader

variable {resolver : Resolver} {d : Document} {v : Variant} {l : Limits} {r r' : Registry}
  {s : Shader} {p : ShaderPass} {n : Node} {t t' : NodeType} {name : String}

/-- Whether a type is that of a node which an output of some pass depends on. -/
def Uses (s : Shader) (t : NodeType) : Prop :=
  ∃ p ∈ s.passes, ∃ id n, p.graph.Live id ∧ p.graph.graph.node? id = some n ∧ n.type = t

/-- The nodes that outputs depend on, pass by pass. -/
def liveNodes (s : Shader) : List Node :=
  s.passes.flatMap fun p => p.graph.live.filterMap p.graph.graph.node?

/-- The names of the functions in the library. -/
def functionNames (s : Shader) : List String :=
  Body.ownNames s.types.entries

theorem types_of_load (h : (load resolver l d v).run r = (.ok s, r')) :
    s.types = s.liveNodes.foldl (fun t n => t.insert n.type.name n.type) .empty := by
  obtain ⟨passes, r₁, -, hresult⟩ := Loading.run_bind_eq_ok h
  split at hresult
  · cases hresult
  · cases hresult
    exact List.foldl_flatMap.symm

theorem exists_liveNode_iff (h : (load resolver l d v).run r = (.ok s, r')) :
    (∃ n ∈ s.liveNodes, n.type = t) ↔ s.Uses t := by
  unfold liveNodes Uses
  simp only [List.mem_flatMap, List.mem_filterMap]
  constructor
  · rintro ⟨n, ⟨p, hp, id, hid, hn⟩, ht⟩
    have hlinked := (analysed_of_load h p hp).sound.toLinked
    exact ⟨p, hp, id, n, (PassGraph.mem_live_iff hlinked).1 hid, hn, ht⟩
  · rintro ⟨p, hp, id, n, hid, hn, ht⟩
    have hlinked := (analysed_of_load h p hp).sound.toLinked
    exact ⟨n, ⟨p, hp, id, (PassGraph.mem_live_iff hlinked).2 hid, hn⟩, ht⟩

/-- The type of a node is the one that is found for its name. -/
theorem find_of_node? (hr : r.Built) (h : (load resolver l d v).run r = (.ok s, r'))
    (hp : p ∈ s.passes) {id : Nat} (hn : p.graph.graph.node? id = some n) :
    Registry.find resolver r n.type.name = .ok n.type := by
  obtain ⟨r₁, hsame, hloaded⟩ := (loadsAs_of_mem h hp).loaded
  cases hwritten : d.written? p.graph.pass with
  | none => cases (PassGraph.loaded_of_absent hwritten).symm.trans hloaded
  | some written =>
    obtain ⟨-, hbound⟩ := PassGraph.bound_of_loaded hwritten hloaded
    obtain ⟨e, -, -, htype, -⟩ := hbound.nodes.flip.exists_getElem? id n hn
    rw [hsame] at htype
    rwa [hr.name_of_find htype]

theorem find_of_uses (hr : r.Built) (h : (load resolver l d v).run r = (.ok s, r'))
    (ht : s.Uses t) : Registry.find resolver r t.name = .ok t := by
  obtain ⟨p, hp, id, n, -, hn, rfl⟩ := ht
  exact find_of_node? hr h hp hn

/-- The passes of a shader use one type of a name, so no type hides another one. -/
theorem Uses.unique (hr : r.Built) (h : (load resolver l d v).run r = (.ok s, r'))
    (ht : s.Uses t) (ht' : s.Uses t') (hname : t.name = t'.name) : t = t' := by
  have hfind := find_of_uses hr h ht
  rw [hname, find_of_uses hr h ht'] at hfind
  exact (Except.ok.inj hfind).symm

/-- The types of a shader are those that its passes use, each under its name. -/
theorem get?_types_iff (hr : r.Built) (h : (load resolver l d v).run r = (.ok s, r')) :
    s.types.get? name = some t ↔ s.Uses t ∧ t.name = name := by
  have hget := Table.get?_foldl_insert (fun n : Node => n.type.name) Node.type s.liveNodes .empty
    name
  rw [types_of_load h, hget, Table.get?_empty, Option.or_none, Option.map_eq_some_iff]
  constructor
  · rintro ⟨n, hn, rfl⟩
    have hmem := List.mem_reverse.1 (List.mem_of_find?_eq_some hn)
    have hname := List.find?_some hn
    exact ⟨(exists_liveNode_iff h).1 ⟨n, hmem, rfl⟩, eq_of_beq hname⟩
  · rintro ⟨huses, rfl⟩
    obtain ⟨n, hn, rfl⟩ := (exists_liveNode_iff h).2 huses
    have hsome : (s.liveNodes.reverse.find? fun m => m.type.name == n.type.name).isSome :=
      List.find?_isSome.2 ⟨n, List.mem_reverse.2 hn, BEq.rfl⟩
    obtain ⟨m, hm⟩ := Option.isSome_iff_exists.1 hsome
    have hmem := List.mem_reverse.1 (List.mem_of_find?_eq_some hm)
    have hname := List.find?_some hm
    have huses' := (exists_liveNode_iff h).1 ⟨m, hmem, rfl⟩
    exact ⟨m, hm, huses'.unique hr h huses (eq_of_beq hname)⟩

theorem mem_functionNames_iff (hr : r.Built) (h : (load resolver l d v).run r = (.ok s, r')) :
    name ∈ s.functionNames ↔ ∃ t, s.Uses t ∧ t.aliasName = none ∧ t.name = name := by
  unfold functionNames Body.ownNames
  simp only [List.mem_map, List.mem_filter, Option.isNone_iff_eq_none]
  constructor
  · rintro ⟨⟨key, t⟩, ⟨hmem, halias⟩, rfl⟩
    obtain ⟨huses, hname⟩ := (get?_types_iff hr h).1 (Table.get?_eq_some_iff.2 hmem)
    exact ⟨t, huses, halias, hname⟩
  · rintro ⟨t, huses, halias, rfl⟩
    exact ⟨(t.name, t), ⟨Table.get?_eq_some_iff.1 ((get?_types_iff hr h).2 ⟨huses, rfl⟩), halias⟩,
      rfl⟩

theorem functionNames_ascending (s : Shader) : s.functionNames.Pairwise (· < ·) := by
  unfold functionNames Body.ownNames
  rw [List.pairwise_map]
  exact s.types.ascending.filter _

/-- The library fails with a function that has no code if there is one, and otherwise
has the blocks of all functions. -/
theorem library_cases (s : Shader) {texts : Resolver} {codes : String → Option String}
    (h : ∀ name, texts.resolve .nodeCode name = .ok (codes name)) :
    ((∃ name ∈ s.functionNames, codes name = none) →
      ∃ name ∈ s.functionNames, codes name = none ∧
        s.library texts = .error (.compile (.missingInclude (texts.place .nodeCode name)))) ∧
    ((¬∃ name ∈ s.functionNames, codes name = none) → s.library texts =
      .ok (String.join (s.functionNames.map fun name =>
        Body.codeBlock name ((codes name).getD "")))) := by
  cases hfound : s.functionNames.find? fun name => (codes name).isNone with
  | some name =>
    have hmem := List.mem_of_find?_eq_some hfound
    have hcode := Option.isNone_iff_eq_none.1 (List.find?_some (p := fun name => (codes name).isNone)
      hfound)
    refine ⟨fun _ => ⟨name, hmem, hcode, ?_⟩, fun hnone => absurd ⟨name, hmem, hcode⟩ hnone⟩
    rw [functionNames] at hfound
    rw [library, Body.library_eq h, hfound]
  | none =>
    have hcodes := List.find?_eq_none.1 hfound
    refine ⟨fun ⟨name, hname, hcode⟩ => ?_, fun _ => ?_⟩
    · exact absurd (Option.isNone_iff_eq_none.2 hcode) (hcodes name hname)
    · rw [functionNames] at hfound
      rw [library, Body.library_eq h, hfound]
      rfl

/-- The calls in a body are those of one of the passes. -/
theorem calls_of_body {material : Material} {pass : Pass} {l' : Limits} {body : Body}
    (h : s.body material pass l' = .ok body) :
    ∃ p ∈ s.passes, ∀ c, .call c ∈ body → p.graph.Calls c := by
  obtain ⟨p, hp, hbody⟩ := Except.bind_eq_ok_iff.1 h
  obtain ⟨⟨m, t⟩, -, hbody⟩ := Except.bind_eq_ok_iff.1 hbody
  exact ⟨p, mem_of_pass? (pass?_of_requirePass hp),
    Body.calls_of_ofPass (Outcome.during_eq_ok_iff.1 hbody)⟩

/-- Every function that a body calls is there: it is the alias of a type in use, or it is
in the library. The library has a function for each type in use without an alias and for
no other, in the order of the bytes of the names, and fails exactly if one has no code. -/
theorem functions_exact (hr : r.Built) (h : (load resolver l d v).run r = (.ok s, r')) :
    (s.functionNames.Pairwise fun name next => Text.toBytes name < Text.toBytes next) ∧
    (∀ name, name ∈ s.functionNames ↔ ∃ t, s.Uses t ∧ t.aliasName = none ∧ t.name = name) ∧
    (∀ material pass l' body, s.body material pass l' = .ok body → ∀ c, .call c ∈ body →
      (c.own = false ∧ ∃ t, s.Uses t ∧ t.aliasName = some c.function) ∨
        (c.own = true ∧ c.function ∈ s.functionNames)) ∧
    ∀ (texts : Resolver) (codes : String → Option String),
      (∀ name, texts.resolve .nodeCode name = .ok (codes name)) →
      ((∃ f, s.library texts = .error f) ↔ ∃ name ∈ s.functionNames, codes name = none) ∧
      (∀ f, s.library texts = .error f → ∃ name ∈ s.functionNames, codes name = none ∧
        f = .compile (.missingInclude (texts.place .nodeCode name))) ∧
      ∀ text, s.library texts = .ok text → text =
        String.join (s.functionNames.map fun name => Body.codeBlock name ((codes name).getD "")) := by
  refine ⟨s.functionNames_ascending.imp fun hlt => Text.toBytes_lt hlt,
    fun name => mem_functionNames_iff hr h, fun material pass l' body hbody c hc => ?_,
    fun texts codes hcodes => ?_⟩
  · obtain ⟨p, hp, hcalls⟩ := calls_of_body hbody
    obtain ⟨id, n, hlive, hn, hfunction, hown⟩ := hcalls c hc
    have huses : s.Uses n.type := ⟨p, hp, id, n, hlive, hn, rfl⟩
    cases halias : n.type.aliasName with
    | some a =>
      rw [NodeType.function, halias] at hfunction
      rw [halias] at hown
      exact .inl ⟨hown, n.type, huses, halias.trans (congrArg some hfunction.symm)⟩
    | none =>
      rw [NodeType.function, halias] at hfunction
      rw [halias] at hown
      exact .inr ⟨hown, (mem_functionNames_iff hr h).2 ⟨n.type, huses, halias, hfunction.symm⟩⟩
  · obtain ⟨hmissing, hcomplete⟩ := s.library_cases hcodes
    refine ⟨⟨fun ⟨f, hf⟩ => ?_, fun hnone => ?_⟩, fun f hf => ?_, fun text htext => ?_⟩
    · by_contra hnone
      cases (hcomplete hnone).symm.trans hf
    · obtain ⟨name, -, -, herror⟩ := hmissing hnone
      exact ⟨_, herror⟩
    · by_cases hnone : ∃ name ∈ s.functionNames, codes name = none
      · obtain ⟨name, hname, hcode, herror⟩ := hmissing hnone
        exact ⟨name, hname, hcode, Except.error.inj (hf.symm.trans herror)⟩
      · cases (hcomplete hnone).symm.trans hf
    · by_cases hnone : ∃ name ∈ s.functionNames, codes name = none
      · obtain ⟨name, -, -, herror⟩ := hmissing hnone
        cases herror.symm.trans htext
      · exact Except.ok.inj (htext.symm.trans (hcomplete hnone))

/-- A document whose only pass gives a node that reads a color. -/
def dyed : Document where
  name := "dyed"
  nodes := Table.empty.insert "tint" ⟨"Tint", Table.empty.insert "c" { source := some "color" }⟩
  passes := Table.empty.insert "Fullbright" { color := some { node := some "tint" } }

def dyedPass : ShaderPass where
  graph := { pass := .fullbright, graph := Body.tintGraph ⟨.color, 0⟩, color := .output ⟨0, 0⟩ }
  usage := .ofLeaves [⟨.color, 0⟩]
  mapping := ({} : Mapping).pushAttribute .vertices 0

def dyedShader : Shader where
  document := dyed
  variant := {}
  types := addTypes .empty dyedPass.graph
  passes := [dyedPass]

theorem load_dyed : (load (ResourceTable.resolver {}) {} dyed {}).run PassGraph.tintTypes =
    (.ok dyedShader, PassGraph.tintTypes) := by
  have hgraph : (PassGraph.load (ResourceTable.resolver {}) dyed .fullbright).run
      PassGraph.tintTypes = (.ok (some dyedPass.graph), PassGraph.tintTypes) :=
    Body.run_load_tint rfl rfl rfl
  have husage : dyedPass.graph.usage = .ofLeaves [⟨.color, 0⟩] := by
    have hvisits : dyedPass.graph.visits = [0] := Body.visits_tint .fullbright ⟨.color, 0⟩
    unfold PassGraph.usage PassGraph.inputLeaves
    rw [hvisits]
    rfl
  have hanalyse : analyse dyed {} {} dyedPass.graph = .ok dyedPass := by
    unfold analyse
    rw [husage]
    rfl
  exact load_of_single rfl (by decide) (by decide) hgraph hanalyse

theorem functions_exact_dyed : PassGraph.tintTypes.Built ∧ "Tint" ∈ dyedShader.functionNames ∧
    ∃ f, dyedShader.library (ResourceTable.resolver {}) = .error f := by
  have hbuilt : PassGraph.tintTypes.Built := .put .empty PassGraph.tintType
  obtain ⟨-, hnames, -, hlibrary⟩ := functions_exact hbuilt load_dyed
  have hcolor : dyedPass.graph.output .color = .output ⟨0, 0⟩ := rfl
  have huses : dyedShader.Uses PassGraph.tintType :=
    ⟨dyedPass, List.mem_cons_self, 0, _, PassGraph.live_of_output hcolor, rfl, rfl⟩
  have hmem : "Tint" ∈ dyedShader.functionNames := (hnames "Tint").2 ⟨_, huses, rfl, rfl⟩
  obtain ⟨hfails, -, -⟩ := hlibrary (ResourceTable.resolver {}) (fun _ => none) fun _ => rfl
  exact ⟨hbuilt, hmem, hfails.2 ⟨"Tint", hmem, rfl⟩⟩

end Shader

end MaterialGraph
