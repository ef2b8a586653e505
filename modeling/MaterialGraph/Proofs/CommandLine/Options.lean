import MaterialGraph.CommandLine.Options

/-!
The options of a command line as a grammar. A command line is read in groups: a switch,
or a spelling of a field with the argument behind it, whatever that looks like. Main
statement: parsing accepts exactly the command lines that split into groups, gives every
field its last value, and otherwise fails at the first argument that starts no group.
-/

namespace MaterialGraph.CommandLine.Options

/-- The options that take a value. -/
inductive Field
  | shader | root | material | config | outputDir
deriving DecidableEq

/-- The options that stand alone. -/
inductive Switch
  | noOptimize | gles
deriving DecidableEq

def Field.spellings : Field → List String
  | shader => ["--shader"]
  | root => ["--root"]
  | material => ["--material"]
  | config => ["--config"]
  | outputDir => ["--output-dir", "--outputdir"]

def Switch.spelling : Switch → String
  | noOptimize => "--no-optimize"
  | gles => "--gles"

inductive Group
  | switch (s : Switch)
  | setting (f : Field) (spelling value : String) (spelled : spelling ∈ f.spellings)

def Group.arguments : Group → List String
  | switch s => [s.spelling]
  | setting _ spelling value _ => [spelling, value]

/-- The value that a group gives to a field. -/
def Group.value? (f : Field) : Group → Option String
  | switch _ => none
  | setting f' _ value _ => if f = f' then some value else none

/-- Whether an argument is a spelling of an option. -/
def Starts (argument : String) : Prop :=
  (∃ s : Switch, argument = s.spelling) ∨ ∃ f : Field, argument ∈ f.spellings

/-- What is left of a command line where no group starts, with the fault of it. -/
inductive Stops : List String → Fault → Prop
  | unknown {argument : String} {rest : List String} (h : ¬Starts argument) :
    Stops (argument :: rest) (.unknownArgument argument usage)
  | missing {argument : String} {f : Field} (h : argument ∈ f.spellings) :
    Stops [argument] (.missingValue argument)

def value (o : Options) : Field → Option String
  | .shader => o.shader
  | .root => o.root
  | .material => o.material
  | .config => o.config
  | .outputDir => o.outputDir

def isOn (o : Options) : Switch → Bool
  | .noOptimize => o.noOptimize
  | .gles => o.gles

def setValue (o : Options) (f : Field) (v : String) : Options :=
  match f with
  | .shader => { o with shader := some v }
  | .root => { o with root := some v }
  | .material => { o with material := some v }
  | .config => { o with config := some v }
  | .outputDir => { o with outputDir := some v }

def turnOn (o : Options) : Switch → Options
  | .noOptimize => { o with noOptimize := true }
  | .gles => { o with gles := true }

def Group.apply (o : Options) : Group → Options
  | switch s => o.turnOn s
  | setting f _ value _ => o.setValue f value

variable {o o' : Options} {f g : Field} {s t : Switch} {argument : String} {fault : Fault}
  {gs gs' : List Group}

section Views

theorem ext_views (hvalue : ∀ f, o.value f = o'.value f) (hon : ∀ s, o.isOn s = o'.isOn s) :
    o = o' := by
  obtain ⟨shader, root, material, config, outputDir, noOptimize, gles⟩ := o
  obtain rfl : shader = o'.shader := hvalue .shader
  obtain rfl : root = o'.root := hvalue .root
  obtain rfl : material = o'.material := hvalue .material
  obtain rfl : config = o'.config := hvalue .config
  obtain rfl : outputDir = o'.outputDir := hvalue .outputDir
  obtain rfl : noOptimize = o'.noOptimize := hon .noOptimize
  obtain rfl : gles = o'.gles := hon .gles
  rfl

theorem value_setValue (o : Options) (f g : Field) (v : String) :
    (o.setValue f v).value g = if g = f then some v else o.value g := by
  cases f <;> cases g <;> rfl

theorem isOn_setValue (o : Options) (f : Field) (v : String) (s : Switch) :
    (o.setValue f v).isOn s = o.isOn s := by
  cases f <;> cases s <;> rfl

theorem value_turnOn (o : Options) (s : Switch) (f : Field) : (o.turnOn s).value f = o.value f := by
  cases s <;> cases f <;> rfl

theorem isOn_turnOn (o : Options) (s t : Switch) : (o.turnOn s).isOn t = (t = s ∨ o.isOn t) := by
  cases s <;> cases t <;> simp [turnOn, isOn]

theorem value_apply (o : Options) (g : Group) (f : Field) :
    (g.apply o).value f = (g.value? f).or (o.value f) := by
  cases g with
  | switch s => exact value_turnOn o s f
  | setting f' spelling v spelled =>
    rw [Group.apply, value_setValue, Group.value?]
    split <;> rfl

theorem isOn_apply (o : Options) (g : Group) (s : Switch) :
    (g.apply o).isOn s ↔ g = .switch s ∨ o.isOn s := by
  cases g with
  | switch t =>
    rw [Group.apply, isOn_turnOn, Group.switch.injEq, eq_comm]
  | setting f' spelling v spelled =>
    rw [Group.apply, isOn_setValue]
    simp

/-- Every field has its last value after a number of groups. -/
theorem value_foldl (gs : List Group) (o : Options) (f : Field) :
    (gs.foldl Group.apply o).value f = (gs.filterMap (Group.value? f)).getLast?.or (o.value f) := by
  induction gs generalizing o with
  | nil => rfl
  | cons g rest ih =>
    rw [List.foldl_cons, ih, value_apply, List.filterMap_cons]
    cases hg : g.value? f with
    | none => rfl
    | some v =>
      rw [List.getLast?_cons]
      cases (rest.filterMap (Group.value? f)).getLast? <;> rfl

theorem isOn_foldl (gs : List Group) (o : Options) (s : Switch) :
    (gs.foldl Group.apply o).isOn s ↔ .switch s ∈ gs ∨ o.isOn s := by
  induction gs generalizing o with
  | nil => simp
  | cons g rest ih =>
    rw [List.foldl_cons, ih, isOn_apply, List.mem_cons, eq_comm (a := g), or_left_comm, or_assoc]

end Views

section Flags

theorem flag?_of_mem_spellings (h : argument ∈ f.spellings) :
    flag? argument = some (.valued fun o v => o.setValue f v) := by
  cases f <;> simp only [Field.spellings, List.mem_cons, List.not_mem_nil, or_false] at h
  case outputDir => rcases h with rfl | rfl <;> rfl
  all_goals
    subst h
    rfl

theorem flag?_spelling (s : Switch) : flag? s.spelling = some (.switch fun o => o.turnOn s) := by
  cases s <;> rfl

/-- An argument is a switch, is a spelling of a field, or starts nothing. -/
theorem flag?_eq_none (h : ¬Starts argument) : flag? argument = none := by
  have hswitch (s : Switch) : argument ≠ s.spelling := fun heq => h (.inl ⟨s, heq⟩)
  have hfield (f : Field) : argument ∉ f.spellings := fun hmem => h (.inr ⟨f, hmem⟩)
  have hnoOptimize := hswitch .noOptimize
  have hgles := hswitch .gles
  have hshader := hfield .shader
  have hroot := hfield .root
  have hmaterial := hfield .material
  have hconfig := hfield .config
  have houtputDir := hfield .outputDir
  simp only [Switch.spelling, Field.spellings, List.mem_cons, List.not_mem_nil, or_false,
    not_or] at *
  simp [flag?, *]

end Flags

section Parsing

/-- A group is read as a whole, whatever follows. -/
theorem parseFrom_group (o : Options) (g : Group) (rest : List String) :
    parseFrom o (g.arguments ++ rest) = parseFrom (g.apply o) rest := by
  cases g with
  | switch s =>
    cases rest with
    | nil =>
      simp only [Group.arguments, List.append_nil, parseFrom, flag?_spelling]
      rfl
    | cons next rest =>
      simp only [Group.arguments, List.singleton_append, parseFrom, flag?_spelling]
      rfl
  | setting f spelling v spelled =>
    simp only [Group.arguments, List.cons_append, List.nil_append, parseFrom,
      flag?_of_mem_spellings spelled]
    rfl

theorem parseFrom_groups (gs : List Group) (o : Options) (rest : List String) :
    parseFrom o (gs.flatMap Group.arguments ++ rest) = parseFrom (gs.foldl Group.apply o) rest := by
  induction gs generalizing o with
  | nil => rfl
  | cons g gs ih =>
    rw [List.flatMap_cons, List.append_assoc, parseFrom_group, ih, List.foldl_cons]

theorem parse_groups (gs : List Group) :
    parse (gs.flatMap Group.arguments) = .ok (gs.foldl Group.apply {}) := by
  rw [parse, ← List.append_nil (gs.flatMap Group.arguments), parseFrom_groups]
  rfl

theorem parseFrom_of_stops {rest : List String} (h : Stops rest fault) (o : Options) :
    parseFrom o rest = .error fault := by
  cases h with
  | @unknown argument rest h => cases rest <;> simp only [parseFrom, flag?_eq_none h]
  | missing h => simp only [parseFrom, flag?_of_mem_spellings h]

/-- A command line splits into groups, up to where it stops. -/
theorem exists_groups : ∀ arguments : List String, ∃ (gs : List Group) (rest : List String),
    arguments = gs.flatMap Group.arguments ++ rest ∧ (rest = [] ∨ ∃ fault, Stops rest fault)
  | [] => ⟨[], [], rfl, .inl rfl⟩
  | argument :: others => by
    by_cases hstarts : Starts argument
    · rcases hstarts with ⟨s, rfl⟩ | ⟨f, hf⟩
      · obtain ⟨gs, rest, rfl, hrest⟩ := exists_groups others
        exact ⟨.switch s :: gs, rest, rfl, hrest⟩
      · cases others with
        | nil => exact ⟨[], [argument], rfl, .inr ⟨_, .missing hf⟩⟩
        | cons v others =>
          obtain ⟨gs, rest, rfl, hrest⟩ := exists_groups others
          exact ⟨.setting f argument v hf :: gs, rest, rfl, hrest⟩
    · exact ⟨[], argument :: others, rfl, .inr ⟨_, .unknown hstarts⟩⟩

/-- Parsing accepts the command lines that split into groups: a field has the value of its
last group, a switch is on if it occurs, and the order of groups does not matter beyond
that of the values of one field. It fails where the groups stop. -/
theorem parse_grouped (arguments : List String) :
    ((∃ o, parse arguments = .ok o) ↔ ∃ gs : List Group, arguments = gs.flatMap Group.arguments) ∧
    (∀ gs : List Group, arguments = gs.flatMap Group.arguments →
      ∃ o, parse arguments = .ok o ∧
        (∀ f, o.value f = (gs.filterMap (Group.value? f)).getLast?) ∧
        (∀ s, o.isOn s ↔ .switch s ∈ gs) ∧
        ∀ gs' : List Group, gs.Perm gs' →
          (∀ f, gs'.filterMap (Group.value? f) = gs.filterMap (Group.value? f)) →
          parse (gs'.flatMap Group.arguments) = .ok o) ∧
    ∀ fault, parse arguments = .error fault ↔
      ∃ (gs : List Group) (rest : List String),
        arguments = gs.flatMap Group.arguments ++ rest ∧ Stops rest fault := by
  refine ⟨⟨?accepted, ?split⟩, ?value, fun fault => ⟨?failed, ?stopped⟩⟩
  case accepted =>
    rintro ⟨o, ho⟩
    obtain ⟨gs, rest, rfl, rfl | ⟨fault, hstops⟩⟩ := exists_groups arguments
    · exact ⟨gs, List.append_nil _⟩
    · rw [parse, parseFrom_groups, parseFrom_of_stops hstops] at ho
      cases ho
  case split =>
    rintro ⟨gs, rfl⟩
    exact ⟨_, parse_groups gs⟩
  case value =>
    rintro gs rfl
    refine ⟨gs.foldl Group.apply {}, parse_groups gs, fun f => ?_, fun s => ?_,
      fun gs' hperm hvalues => ?_⟩
    · rw [value_foldl]
      cases f <;> exact Option.or_none
    · rw [isOn_foldl]
      cases s <;> simp [isOn]
    · rw [parse_groups]
      refine congrArg _ (ext_views (fun f => ?_) fun s => ?_)
      · rw [value_foldl, value_foldl, hvalues]
      · rw [Bool.eq_iff_iff, isOn_foldl, isOn_foldl, hperm.mem_iff]
  case failed =>
    intro hfault
    obtain ⟨gs, rest, rfl, rfl | ⟨fault', hstops⟩⟩ := exists_groups arguments
    · rw [List.append_nil, parse_groups] at hfault
      cases hfault
    · rw [parse, parseFrom_groups, parseFrom_of_stops hstops] at hfault
      cases hfault
      exact ⟨gs, rest, rfl, hstops⟩
  case stopped =>
    rintro ⟨gs, rest, rfl, hstops⟩
    rw [parse, parseFrom_groups, parseFrom_of_stops hstops]

/-- A value may look like an option. -/
example : parse ["--root", "--gles", "--shader", "--root", "--root", "a"] =
    .ok { shader := some "--root", root := some "a" } :=
  rfl

end Parsing

end MaterialGraph.CommandLine.Options
