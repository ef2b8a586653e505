import MaterialGraph.Proofs.Assembly.Block
import MaterialGraph.Proofs.Assembly.Expansion

/-!
The text before the optimizer by its parts: the define block, what stands for the lines
of the prelude, and the material text where no line includes it. Main statement: these
parts are the text, and only the material text itself changes with the material text.
-/

namespace MaterialGraph.Assembly

open Include (Directive Expansion Piece Stands expand materialName)

variable {resolver : Resolver} {config : Config} {p : Plan} {names : List String} {stage : Stage}
  {material : String}

/-- A fragment under a line with its name. -/
def wrap (name fragment : String) : String :=
  "// " ++ name ++ "\r\n" ++ fragment ++ "\r\n"

def wrapped (names fragments : List String) : String :=
  String.join (List.zipWith wrap names fragments)

/-- Whether the material text comes last, which it does in the fragment stage if no line
includes it. -/
def MaterialLast (stage : Stage) (lines : List (List Char)) : Prop :=
  stage = .fragment ∧ ∀ line ∈ lines, ¬Directive line materialName

instance (stage : Stage) (lines : List (List Char)) : Decidable (MaterialLast stage lines) :=
  inferInstanceAs (Decidable (_ ∧ _))

section Prelude

theorem closed_wrap (name fragment : String) : Text.Closed (wrap name fragment).toList := by
  have hend : (wrap name fragment).toList =
      "// ".toList ++ name.toList ++ ['\r', '\n'] ++ fragment.toList ++ ['\r'] ++ ['\n'] := by
    simp [wrap]
  rw [hend]
  exact Text.closed_append_feed _

theorem closed_wrapped (names fragments : List String) :
    Text.Closed (wrapped names fragments).toList := by
  rw [wrapped, String.toList_join, List.flatMap_def]
  refine Text.closed_flatten fun s hs => ?_
  obtain ⟨w, hw, rfl⟩ := List.mem_map.1 hs
  obtain ⟨i, hi, rfl⟩ := List.getElem_of_mem hw
  rw [List.getElem_zipWith]
  exact closed_wrap _ _

/-- The prelude has the fragments of its names, in their order. -/
theorem prelude_eq_ok_iff {text : String} : prelude resolver names = .ok text ↔
    ∃ fragments, List.Forall₂ (fun name fragment =>
      resolver.resolve .fragment name = .ok (some fragment)) names fragments ∧
      text = wrapped names fragments := by
  induction names generalizing text with
  | nil =>
    constructor
    · intro h
      cases h
      exact ⟨[], .nil, rfl⟩
    · rintro ⟨fragments, hfragments, rfl⟩
      cases hfragments
      rfl
  | cons name rest ih =>
    constructor
    · intro h
      obtain ⟨found, hfound, h⟩ := Except.bind_eq_ok_iff.1 h
      cases found with
      | none => cases h
      | some fragment =>
        obtain ⟨others, hothers, h⟩ := Except.bind_eq_ok_iff.1 h
        obtain ⟨fragments, hfragments, rfl⟩ := ih.1 hothers
        cases h
        exact ⟨fragment :: fragments, .cons hfound hfragments, by simp [wrapped, wrap]⟩
    · rintro ⟨_, hfragments, rfl⟩
      cases hfragments with
      | @cons _ fragment _ fragments hfound hfragments =>
        have hothers := ih.2 ⟨fragments, hfragments, rfl⟩
        rw [prelude, hfound]
        simp only [bind, Except.bind, hothers]
        simp [wrapped, wrap]

end Prelude

section Source

/-- The define block is expanded to itself. -/
theorem expand_defineBlock_append (p : Plan) (gles : Bool) (rest : String) {pieces : List Piece}
    (h : List.Forall₂ (Stands resolver) (Text.lines rest.toList) pieces) :
    expand resolver stage material (p.defineBlock gles ++ rest) =
      .ok ⟨(p.defineBlock gles).toList ++ pieces.flatMap (Piece.chars stage material),
        Piece.material ∈ pieces⟩ := by
  have hblock : expand resolver stage material (p.defineBlock gles) =
      .ok ⟨(p.defineBlock gles).toList, false⟩ :=
    Include.expand_of_plain fun _ => Plan.plain_of_mem_lines_defineBlock
  have hrest : expand resolver stage material rest = .ok (.ofPieces stage material pieces) :=
    Include.expandLines_eq_ok_iff.2 ⟨pieces, h, rfl⟩
  rw [Include.expand_append (p.closed_defineBlock gles), hblock, hrest]
  rfl

theorem materialLast_iff {lines : List (List Char)} {pieces : List Piece}
    (h : List.Forall₂ (Stands resolver) lines pieces) :
    MaterialLast stage lines ↔ stage = .fragment ∧ .material ∉ pieces := by
  rw [Include.material_mem_iff h]
  simp [MaterialLast]

/-- The texts that a prelude consists of, and what stands for its lines. They depend neither
on a plan nor on its material text. -/
structure Parts (config : Config) (resolver : Resolver) where
  fragments : List String
  pieces : List Piece
  resolved : List.Forall₂ (fun name fragment =>
    resolver.resolve .fragment name = .ok (some fragment)) config.prelude fragments
  stands : List.Forall₂ (Stands resolver)
    (Text.lines (wrapped config.prelude fragments).toList) pieces

/-- There is one way to take a prelude apart. -/
instance : Subsingleton (Parts config resolver) where
  allEq parts parts' := by
    obtain ⟨fragments, pieces, hresolved, hstands⟩ := parts
    obtain ⟨fragments', pieces', hresolved', hstands'⟩ := parts'
    have hfragment : Relator.RightUnique fun name fragment =>
        resolver.resolve .fragment name = .ok (some fragment) :=
      fun _ _ _ h h' => Option.some.inj (Except.ok.inj (h.symm.trans h'))
    obtain rfl := List.right_unique_forall₂' hfragment hresolved hresolved'
    have hpiece : Relator.RightUnique (Stands resolver) := fun _ _ _ h h' => h.piece_unique h'
    obtain rfl := List.right_unique_forall₂' hpiece hstands hstands'
    rfl

namespace Parts

def lines (parts : Parts config resolver) : List (List Char) :=
  Text.lines (wrapped config.prelude parts.fragments).toList

/-- The define block and the expanded prelude. -/
def front (parts : Parts config resolver) (p : Plan) : List Char :=
  (p.defineBlock config.gles).toList ++ parts.pieces.flatMap (Piece.chars p.stage p.materialText)

def text (parts : Parts config resolver) (p : Plan) : String :=
  String.ofList (parts.front p ++
    if MaterialLast p.stage parts.lines then p.materialText.toList else [])

theorem text_eq_append (parts : Parts config resolver) (p : Plan) :
    parts.text p = p.defineBlock config.gles ++
      String.ofList (parts.pieces.flatMap (Piece.chars p.stage p.materialText) ++
        if MaterialLast p.stage parts.lines then p.materialText.toList else []) := by
  rw [text, front, List.append_assoc, String.ofList_append, String.ofList_toList]

theorem expand_eq_ok (parts : Parts config resolver) (p : Plan) :
    expand resolver p.stage p.materialText
        (p.defineBlock config.gles ++ wrapped config.prelude parts.fragments) =
      .ok ⟨parts.front p, Piece.material ∈ parts.pieces⟩ :=
  expand_defineBlock_append p config.gles _ parts.stands

theorem source_eq_text (parts : Parts config resolver) (p : Plan) :
    source config resolver p = .ok (parts.text p) := by
  have hprelude := prelude_eq_ok_iff.2 ⟨parts.fragments, parts.resolved, rfl⟩
  have hlast : (p.stage = .fragment ∧ decide (Piece.material ∈ parts.pieces) = false) ↔
      MaterialLast p.stage parts.lines := by
    rw [lines, materialLast_iff parts.stands, decide_eq_false_iff_not]
  simp only [source, hprelude, parts.expand_eq_ok p, bind, Except.bind, hlast, text]
  split
  · rw [String.ofList_append, String.ofList_toList]
  · rw [List.append_nil]

/-- Where no line includes the material text, what comes before it ends a line. -/
theorem closed_front (parts : Parts config resolver) (h : .material ∉ parts.pieces) (p : Plan) :
    Text.Closed (parts.front p) := by
  have hlines : ∀ line ∈ parts.lines, Text.Closed line := fun _ =>
    Text.closed_of_mem_lines (closed_wrapped _ _)
  exact (p.closed_defineBlock config.gles).append
    (Include.closed_ofPieces parts.stands hlines fun hmem => absurd hmem h)

end Parts

/-- There are parts for every text before the optimizer. -/
theorem exists_parts {text : String} (h : source config resolver p = .ok text) :
    ∃ parts : Parts config resolver, text = parts.text p := by
  obtain ⟨wrappedText, hprelude, hexpand⟩ := Except.bind_eq_ok_iff.1 h
  obtain ⟨fragments, hresolved, rfl⟩ := prelude_eq_ok_iff.1 hprelude
  obtain ⟨e, he, -⟩ := Except.bind_eq_ok_iff.1 hexpand
  rw [Include.expand_append (p.closed_defineBlock config.gles)] at he
  obtain ⟨_, -, he⟩ := Except.bind_eq_ok_iff.1 he
  obtain ⟨_, hrest, -⟩ := Except.bind_eq_ok_iff.1 he
  obtain ⟨pieces, hstands, -⟩ := Include.expandLines_eq_ok_iff.1 hrest
  let parts : Parts config resolver := ⟨fragments, pieces, hresolved, hstands⟩
  exact ⟨parts, Except.ok.inj (h.symm.trans (parts.source_eq_text p))⟩

/-- The vertex stage leaves the material text out, also where the expansion fails. -/
theorem expandLines_vertex (material material' : String) (lines : List (List Char)) :
    Include.expandLines resolver .vertex material lines =
      Include.expandLines resolver .vertex material' lines := by
  induction lines with
  | nil => rfl
  | cons line rest ih =>
    rw [Include.expandLines, Include.expandLines, ih]
    rfl

theorem source_vertex (h : p.stage = .vertex) (material : String) :
    source config resolver { p with materialText := material } = source config resolver p := by
  have hexpand (text : String) : expand resolver p.stage material text =
      expand resolver p.stage p.materialText text := by
    rw [h]
    exact expandLines_vertex ..
  have hblock : ({ p with materialText := material } : Plan).defineBlock config.gles =
      p.defineBlock config.gles := rfl
  simp only [source, hblock, hexpand]
  simp only [h, reduceCtorEq, false_and, if_false]

end Source

/-- The text before the optimizer is the define block, the expanded prelude and, in the
fragment stage where no line of the prelude includes it, the material text on a line of its
own. The vertex stage depends on no material text. -/
theorem source_shape (config : Config) (resolver : Resolver) (p : Plan) :
    (∀ text, source config resolver p = .ok text ↔
      ∃! parts : Parts config resolver, text = parts.text p) ∧
    (p.stage = .vertex → ∀ material,
      source config resolver { p with materialText := material } = source config resolver p) ∧
    ∀ parts : Parts config resolver,
      (MaterialLast p.stage parts.lines ↔ p.stage = .fragment ∧ .material ∉ parts.pieces) ∧
      (MaterialLast p.stage parts.lines → Text.Closed (parts.front p)) := by
  refine ⟨fun text => ⟨fun h => ?_, ?_⟩, source_vertex, fun parts => ?_⟩
  · obtain ⟨parts, rfl⟩ := exists_parts h
    exact ⟨parts, rfl, fun other _ => Subsingleton.elim other parts⟩
  · rintro ⟨parts, rfl, -⟩
    exact parts.source_eq_text p
  · have hlast : MaterialLast p.stage parts.lines ↔ p.stage = .fragment ∧ .material ∉ parts.pieces :=
      materialLast_iff parts.stands
    exact ⟨hlast, fun h => parts.closed_front (hlast.1 h).2 p⟩

/-- One fragment includes another one, which does not end its line, and one the material text. -/
def hooks : ResourceTable where
  fragments := ((Table.empty.insert "noise.glsl" "float noise;").insert "lib.glsl"
    "#include \"noise.glsl\"").insert "main.glsl" "start\n #include \"material\"\nend"

def hookPlan (stage : Stage) (material : String) : Plan where
  shader := "hook"
  pass := .fullbright
  stage := stage
  precision := .low
  variant := {}
  usage := .empty
  mapping := {}
  material := {}
  samplerPrecision _ := .low
  materialText := material

def libParts : Parts { prelude := ["lib.glsl"] } hooks.resolver where
  fragments := ["#include \"noise.glsl\""]
  pieces := [.text "// lib.glsl\r\n".toList, .text (Include.closeLine "float noise;")]
  resolved := .cons rfl .nil
  stands := by
    have hlines : Text.lines (wrapped ["lib.glsl"] ["#include \"noise.glsl\""]).toList =
        ["// lib.glsl\r\n".toList, "#include \"noise.glsl\"\r\n".toList] := by decide +kernel
    have hnoise : Directive "#include \"noise.glsl\"\r\n".toList "noise.glsl" := by decide
    rw [hlines]
    exact .cons (.plain (by decide)) (.cons (.fragment hnoise (by decide) rfl) .nil)

def mainParts : Parts { prelude := ["main.glsl"] } hooks.resolver where
  fragments := ["start\n #include \"material\"\nend"]
  pieces := [.text "// main.glsl\r\n".toList, .text "start\n".toList, .material,
    .text "end\r\n".toList]
  resolved := .cons rfl .nil
  stands := by
    have hlines : Text.lines (wrapped ["main.glsl"]
        ["start\n #include \"material\"\nend"]).toList =
          ["// main.glsl\r\n".toList, "start\n".toList, " #include \"material\"\n".toList,
            "end\r\n".toList] := by decide +kernel
    rw [hlines]
    exact .cons (.plain (by decide)) (.cons (.plain (by decide))
      (.cons (.material (by decide)) (.cons (.plain (by decide)) .nil)))

theorem source_shape_hooks :
    source { prelude := ["lib.glsl"] } hooks.resolver (hookPlan .fragment "M") =
      .ok ((hookPlan .fragment "M").defineBlock false ++ "// lib.glsl\r\nfloat noise;\r\nM") ∧
    source { prelude := ["main.glsl"] } hooks.resolver (hookPlan .fragment "M\n") =
      .ok ((hookPlan .fragment "M\n").defineBlock false ++
        "// main.glsl\r\nstart\nM\nend\r\n") ∧
    source { prelude := ["main.glsl"] } hooks.resolver (hookPlan .vertex "M\n") =
      source { prelude := ["main.glsl"] } hooks.resolver (hookPlan .vertex "") ∧
    Text.Closed (libParts.front (hookPlan .fragment "M")) := by
  obtain ⟨hlib, -, hfront⟩ := source_shape { prelude := ["lib.glsl"] } hooks.resolver
    (hookPlan .fragment "M")
  obtain ⟨hmain, -, -⟩ := source_shape { prelude := ["main.glsl"] } hooks.resolver
    (hookPlan .fragment "M\n")
  obtain ⟨-, hvertex, -⟩ := source_shape { prelude := ["main.glsl"] } hooks.resolver
    (hookPlan .vertex "")
  refine ⟨(hlib _).2 ⟨libParts, ?_, fun _ _ => Subsingleton.elim _ _⟩,
    (hmain _).2 ⟨mainParts, ?_, fun _ _ => Subsingleton.elim _ _⟩, hvertex rfl "M\n",
    (hfront libParts).2 (by decide +kernel)⟩
  · dsimp only
    rw [Parts.text_eq_append]
    exact congrArg _ (by decide +kernel)
  · dsimp only
    rw [Parts.text_eq_append]
    exact congrArg _ (by decide +kernel)

end MaterialGraph.Assembly
