import MaterialGraph.Proofs.Assembly.Directive
import MaterialGraph.Proofs.Failure
import MaterialGraph.Proofs.Settles
import MaterialGraph.Proofs.Text.Line

/-!
Expansion line by line. Each line has a piece that stands for it, and the expansion is
these pieces, whatever the material text is. Main statement: texts expand one after the
other, lines without a directive are lines of the expansion, and it fails for the first
fragment that is missing.
-/

namespace MaterialGraph.Include

variable {resolver : Resolver} {stage : Stage} {material : String} {line : List Char}
  {lines lines' : List (List Char)} {e : Expansion} {f : Failure} {name : String}

/-- Whether a line stands for itself. -/
def Plain (line : List Char) : Prop :=
  ∀ name, ¬Directive line name

theorem plain_iff : Plain line ↔ target? line = none := by
  simp only [Plain, ← target?_eq_some_iff, Option.eq_none_iff_forall_ne_some, ne_eq]

instance (line : List Char) : Decidable (Plain line) :=
  decidable_of_iff _ plain_iff.symm

/-- What stands for a line: a text, or the material text where the stage has it. -/
inductive Piece
  | text (s : List Char)
  | material
deriving DecidableEq

def Piece.chars (stage : Stage) (material : String) : Piece → List Char
  | text s => s
  | .material => match stage with
    | .vertex => []
    | .fragment => material.toList

/-- Whether a piece stands for a line. -/
inductive Stands (resolver : Resolver) : List Char → Piece → Prop
  | plain {line : List Char} (h : Plain line) : Stands resolver line (.text line)
  | material {line : List Char} (h : Directive line materialName) : Stands resolver line .material
  | fragment {line : List Char} {name text : String} (h : Directive line name)
      (hne : name ≠ materialName) (htext : resolver.resolve .fragment name = .ok (some text)) :
      Stands resolver line (.text (closeLine text))

/-- The expansion that consists of some pieces. -/
def Expansion.ofPieces (stage : Stage) (material : String) (pieces : List Piece) : Expansion :=
  ⟨pieces.flatMap (Piece.chars stage material), Piece.material ∈ pieces⟩

/-- Whether a line includes a fragment that does not exist. -/
def Missing (resolver : Resolver) (line : List Char) (name : String) : Prop :=
  Directive line name ∧ name ≠ materialName ∧ resolver.resolve .fragment name = .ok none

section Line

theorem expandLine_of_plain (h : Plain line) (stage : Stage) (material : String) :
    expandLine resolver stage material line = .ok ⟨line, false⟩ := by
  unfold expandLine
  rw [plain_iff.1 h]

theorem expandLine_of_material (h : Directive line materialName) (stage : Stage)
    (material : String) :
    expandLine resolver stage material line =
      .ok ⟨Piece.chars stage material .material, true⟩ := by
  unfold expandLine
  rw [target?_eq_some_iff.2 h]
  exact if_pos rfl

theorem expandLine_of_fragment (h : Directive line name) (hne : name ≠ materialName)
    (stage : Stage) (material : String) :
    expandLine resolver stage material line = (do
      match ← resolver.resolve .fragment name with
      | none => .error (.compile (.missingInclude name))
      | some text => .ok ⟨closeLine text, false⟩) := by
  unfold expandLine
  rw [target?_eq_some_iff.2 h]
  exact if_neg hne

/-- A line stands for itself, for the material text or for a fragment. -/
theorem plain_or_directive (line : List Char) :
    Plain line ∨ Directive line materialName ∨ ∃ name, Directive line name ∧ name ≠ materialName := by
  by_cases hplain : Plain line
  · exact .inl hplain
  · obtain ⟨name, hname⟩ : ∃ name, Directive line name := by simpa [Plain] using hplain
    by_cases hmaterial : name = materialName
    · exact .inr (.inl (hmaterial ▸ hname))
    · exact .inr (.inr ⟨name, hname, hmaterial⟩)

theorem Stands.expandLine {piece : Piece} (h : Stands resolver line piece) (stage : Stage)
    (material : String) : Include.expandLine resolver stage material line =
      .ok ⟨piece.chars stage material, piece = .material⟩ := by
  cases h with
  | plain h => exact expandLine_of_plain h stage material
  | material h => exact expandLine_of_material h stage material
  | fragment h hne htext =>
    rw [expandLine_of_fragment h hne, htext]
    rfl

/-- Only one piece stands for a line. -/
theorem Stands.piece_unique {piece other : Piece} (h : Stands resolver line piece)
    (h' : Stands resolver line other) : piece = other := by
  cases h with
  | plain h =>
    cases h' with
    | plain _ => rfl
    | material h' => exact absurd h' (h _)
    | fragment h' _ _ => exact absurd h' (h _)
  | material h =>
    cases h' with
    | plain h' => exact absurd h (h' _)
    | material _ => rfl
    | fragment h' hne _ => exact absurd (directive_unique h' h) hne
  | fragment h hne htext =>
    cases h' with
    | plain h' => exact absurd h (h' _)
    | material h' => exact absurd (directive_unique h h') hne
    | fragment h' _ htext' =>
      obtain rfl := directive_unique h h'
      cases htext.symm.trans htext'
      rfl

theorem exists_stands (h : expandLine resolver stage material line = .ok e) :
    ∃ piece, Stands resolver line piece := by
  rcases plain_or_directive line with hplain | hmaterial | ⟨name, hname, hne⟩
  · exact ⟨_, .plain hplain⟩
  · exact ⟨_, .material hmaterial⟩
  · rw [expandLine_of_fragment hname hne] at h
    obtain ⟨found, hfound, h⟩ := Except.bind_eq_ok_iff.1 h
    cases found with
    | none => cases h
    | some text => exact ⟨_, .fragment hname hne hfound⟩

theorem Missing.expandLine (h : Missing resolver line name) (stage : Stage) (material : String) :
    Include.expandLine resolver stage material line = .error (.compile (.missingInclude name)) := by
  obtain ⟨hname, hne, hnone⟩ := h
  rw [expandLine_of_fragment hname hne, hnone]
  rfl

/-- Where every name has an answer, a line fails only for a fragment that is missing. -/
theorem exists_missing (hresolver : resolver.Answers)
    (h : expandLine resolver stage material line = .error f) :
    ∃ name, Missing resolver line name ∧ f = .compile (.missingInclude name) := by
  rcases plain_or_directive line with hplain | hmaterial | ⟨name, hname, hne⟩
  · cases (expandLine_of_plain hplain stage material).symm.trans h
  · cases (expandLine_of_material hmaterial stage material).symm.trans h
  · obtain ⟨found, hfound⟩ := hresolver .fragment name
    rw [expandLine_of_fragment hname hne, hfound] at h
    cases found with
    | none => exact ⟨name, ⟨hname, hne, hfound⟩, (Except.error.inj h).symm⟩
    | some text => cases h

end Line

section Lines

theorem ofPieces_cons (piece : Piece) (pieces : List Piece) :
    Expansion.ofPieces stage material (piece :: pieces) =
      ⟨piece.chars stage material ++ (Expansion.ofPieces stage material pieces).text,
        decide (piece = .material) || (Expansion.ofPieces stage material pieces).sawMaterial⟩ := by
  simp [Expansion.ofPieces, eq_comm]

/-- A text is expanded exactly if there are pieces that stand for its lines, and they are
what it is expanded to. -/
theorem expandLines_eq_ok_iff : expandLines resolver stage material lines = .ok e ↔
    ∃ pieces, List.Forall₂ (Stands resolver) lines pieces ∧ e = .ofPieces stage material pieces := by
  induction lines generalizing e with
  | nil =>
    constructor
    · intro h
      cases h
      exact ⟨[], .nil, rfl⟩
    · rintro ⟨pieces, hpieces, rfl⟩
      cases hpieces
      rfl
  | cons line rest ih =>
    constructor
    · intro h
      obtain ⟨first, hfirst, h⟩ := Except.bind_eq_ok_iff.1 h
      obtain ⟨others, hothers, h⟩ := Except.bind_eq_ok_iff.1 h
      obtain ⟨piece, hpiece⟩ := exists_stands hfirst
      obtain ⟨pieces, hpieces, rfl⟩ := ih.1 hothers
      cases (hpiece.expandLine stage material).symm.trans hfirst
      cases h
      exact ⟨piece :: pieces, .cons hpiece hpieces, (ofPieces_cons ..).symm⟩
    · rintro ⟨_, hpieces, rfl⟩
      cases hpieces with
      | @cons _ piece _ pieces hpiece hpieces =>
        rw [expandLines, hpiece.expandLine, ih.2 ⟨pieces, hpieces, rfl⟩, ofPieces_cons]
        rfl

theorem material_mem_iff {pieces : List Piece} (h : List.Forall₂ (Stands resolver) lines pieces) :
    .material ∈ pieces ↔ ∃ line ∈ lines, Directive line materialName := by
  induction h with
  | nil => simp
  | @cons line piece rest pieces hpiece _ ih =>
    have hhead : .material = piece ↔ Directive line materialName := by
      cases hpiece with
      | plain h => exact ⟨nofun, fun hline => absurd hline (h _)⟩
      | material h => exact ⟨fun _ => h, fun _ => rfl⟩
      | fragment h hne _ => exact ⟨nofun, fun hline => absurd (directive_unique h hline) hne⟩
    rw [List.mem_cons, hhead, ih, List.exists_mem_cons_iff]

theorem expandLines_append :
    expandLines resolver stage material (lines ++ lines') = (do
      let first ← expandLines resolver stage material lines
      let others ← expandLines resolver stage material lines'
      .ok ⟨first.text ++ others.text, first.sawMaterial || others.sawMaterial⟩) := by
  induction lines with
  | nil =>
    cases hothers : expandLines resolver stage material lines' <;> simp [expandLines, hothers] <;> rfl
  | cons line rest ih =>
    rw [List.cons_append, expandLines, expandLines, ih]
    cases expandLine resolver stage material line with
    | error f => rfl
    | ok first =>
      cases expandLines resolver stage material rest with
      | error f => rfl
      | ok others =>
        cases expandLines resolver stage material lines' with
        | error f => rfl
        | ok last => simp [bind, Except.bind, Bool.or_assoc]

theorem expandLines_of_plain (h : ∀ line ∈ lines, Plain line) :
    expandLines resolver stage material lines = .ok ⟨lines.flatten, false⟩ := by
  induction lines with
  | nil => rfl
  | cons line rest ih =>
    rw [List.forall_mem_cons] at h
    rw [expandLines, expandLine_of_plain h.1, ih h.2]
    rfl

/-- Where every name has an answer, an expansion fails for the first line that includes a
missing fragment. -/
theorem exists_first_missing (hresolver : resolver.Answers)
    (h : expandLines resolver stage material lines = .error f) :
    ∃ before line after name, lines = before ++ line :: after ∧ Missing resolver line name ∧
      (∀ l ∈ before, ∀ n, ¬Missing resolver l n) ∧ f = .compile (.missingInclude name) := by
  induction lines generalizing f with
  | nil => cases h
  | cons line rest ih =>
    cases hfirst : expandLine resolver stage material line with
    | error g =>
      rw [expandLines, hfirst] at h
      cases h
      obtain ⟨name, hmissing, hf⟩ := exists_missing hresolver hfirst
      exact ⟨[], line, rest, name, rfl, hmissing, List.forall_mem_nil _, hf⟩
    | ok first =>
      cases hothers : expandLines resolver stage material rest with
      | ok others =>
        rw [expandLines, hfirst, hothers] at h
        cases h
      | error g =>
        rw [expandLines, hfirst, hothers] at h
        cases h
        obtain ⟨before, failing, after, name, rfl, hmissing, hbefore, hf⟩ := ih hothers
        refine ⟨line :: before, failing, after, name, rfl, hmissing, ?_, hf⟩
        refine List.forall_mem_cons.2 ⟨fun n hn => ?_, hbefore⟩
        cases (hn.expandLine stage material).symm.trans hfirst

/-- The first line that includes a missing fragment, if there is one, is what an expansion
fails for. -/
theorem expandLines_eq_error_iff (hresolver : resolver.Answers) :
    expandLines resolver stage material lines = .error f ↔
    ∃ before line after name, lines = before ++ line :: after ∧ Missing resolver line name ∧
      (∀ l ∈ before, ∀ n, ¬Missing resolver l n) ∧ f = .compile (.missingInclude name) := by
  refine ⟨exists_first_missing hresolver, ?_⟩
  rintro ⟨before, line, after, name, rfl, hmissing, hbefore, rfl⟩
  cases hfirst : expandLines resolver stage material before with
  | error g =>
    obtain ⟨_, l, _, n, rfl, hn, -⟩ := exists_first_missing hresolver hfirst
    exact absurd hn (hbefore l (by simp) n)
  | ok first =>
    rw [expandLines_append, hfirst, expandLines, hmissing.expandLine]
    rfl

end Lines

section Closed

variable {piece : Piece} {pieces : List Piece}

theorem closed_closeLine (text : String) : Text.Closed (closeLine text) := by
  unfold closeLine
  split
  · next h => exact .inr h
  · exact .inr (by simp)

theorem Stands.closed (h : Stands resolver line piece) (hline : Text.Closed line)
    (hmaterial : piece = .material → Text.Closed material.toList) :
    Text.Closed (piece.chars stage material) := by
  cases h with
  | plain _ => exact hline
  | fragment _ _ _ => exact closed_closeLine _
  | material _ =>
    cases stage with
    | vertex => exact .inl rfl
    | fragment => exact hmaterial rfl

theorem closed_ofPieces (h : List.Forall₂ (Stands resolver) lines pieces)
    (hlines : ∀ line ∈ lines, Text.Closed line)
    (hmaterial : .material ∈ pieces → Text.Closed material.toList) :
    Text.Closed (Expansion.ofPieces stage material pieces).text := by
  induction h with
  | nil => exact .inl rfl
  | cons hpiece _ ih =>
    rw [List.forall_mem_cons] at hlines
    rw [ofPieces_cons]
    refine (hpiece.closed hlines.1 fun heq => hmaterial (heq ▸ List.mem_cons_self)).append ?_
    exact ih hlines.2 fun hmem => hmaterial (List.mem_cons_of_mem _ hmem)

/-- Lines that stand for themselves are lines of the expansion, in their order. -/
theorem kept_sublist (h : List.Forall₂ (Stands resolver) lines pieces)
    (hlines : ∀ line ∈ lines, Text.lines line = [line])
    (hfollowed : lines.Pairwise fun line _ => Text.Closed line)
    (hmaterial : Text.Closed material.toList) :
    (lines.filter fun line => Plain line).Sublist
      (Text.lines (Expansion.ofPieces stage material pieces).text) := by
  induction h with
  | nil => exact List.nil_sublist _
  | @cons line piece rest pieces hpiece hrest ih =>
    rw [List.forall_mem_cons] at hlines
    rw [List.pairwise_cons] at hfollowed
    have hsplit : Text.lines (Expansion.ofPieces stage material (piece :: pieces)).text =
        Text.lines (piece.chars stage material) ++
          Text.lines (Expansion.ofPieces stage material pieces).text := by
      rw [ofPieces_cons]
      cases hrest with
      | nil => simp [Expansion.ofPieces, Text.lines_nil]
      | cons _ _ =>
        have hclosed := hfollowed.1 _ List.mem_cons_self
        exact Text.lines_append (hpiece.closed hclosed fun _ => hmaterial) _
    rw [hsplit]
    by_cases hplain : Plain line
    · rw [List.filter_cons_of_pos (by simpa using hplain)]
      cases hpiece with
      | plain _ =>
        rw [Piece.chars, hlines.1]
        exact (ih hlines.2 hfollowed.2).cons_cons line
      | material h => exact absurd h (hplain _)
      | fragment h _ _ => exact absurd h (hplain _)
    · rw [List.filter_cons_of_neg (by simpa using hplain)]
      exact (ih hlines.2 hfollowed.2).trans (List.sublist_append_right _ _)

end Closed

/-- A closed text is expanded before what follows it. -/
theorem expand_append {a : String} (ha : Text.Closed a.toList) (b : String) :
    expand resolver stage material (a ++ b) = (do
      let first ← expand resolver stage material a
      let others ← expand resolver stage material b
      .ok ⟨first.text ++ others.text, first.sawMaterial || others.sawMaterial⟩) := by
  rw [expand, String.toList_append, Text.lines_append ha, expandLines_append]
  rfl

/-- A text without directives stays as it is. -/
theorem expand_of_plain {text : String} (h : ∀ line ∈ Text.lines text.toList, Plain line) :
    expand resolver stage material text = .ok ⟨text.toList, false⟩ := by
  rw [expand, expandLines_of_plain h, Text.flatten_lines]

/-- A closed text is expanded before what follows it, and an expansion keeps lines without
a directive as lines, unless the material text runs into them. -/
theorem expand_linewise (resolver : Resolver) (stage : Stage) (material : String) :
    (∀ a b : String, Text.Closed a.toList → expand resolver stage material (a ++ b) = (do
      let first ← expand resolver stage material a
      let others ← expand resolver stage material b
      .ok ⟨first.text ++ others.text, first.sawMaterial || others.sawMaterial⟩)) ∧
    (∀ text : String, (∀ line ∈ Text.lines text.toList, Plain line) →
      expand resolver stage material text = .ok ⟨text.toList, false⟩) ∧
    (resolver.Answers → ∀ (text : String) (f : Failure),
      expand resolver stage material text = .error f ↔
        ∃ before line after name, Text.lines text.toList = before ++ line :: after ∧
          Missing resolver line name ∧ (∀ l ∈ before, ∀ n, ¬Missing resolver l n) ∧
          f = .compile (.missingInclude name)) ∧
    ∀ (text : String) (e : Expansion), Text.Closed material.toList →
      expand resolver stage material text = .ok e →
      ((Text.lines text.toList).filter fun line => Plain line).Sublist (Text.lines e.text) ∧
      ∀ line ∈ Text.lines text.toList, Plain line →
        ∃ head tail, e.text = head ++ line ++ tail ∧ Text.Closed head := by
  refine ⟨fun a b ha => expand_append ha b, fun text => expand_of_plain,
    fun hresolver text f => expandLines_eq_error_iff hresolver, fun text e hmaterial h => ?_⟩
  obtain ⟨pieces, hpieces, rfl⟩ := expandLines_eq_ok_iff.1 h
  have hsublist : ((Text.lines text.toList).filter fun line => Plain line).Sublist
      (Text.lines (Expansion.ofPieces stage material pieces).text) :=
    kept_sublist hpieces (fun _ => Text.lines_of_mem) (Text.closed_of_followed _) hmaterial
  refine ⟨hsublist, fun line hline hplain => Text.exists_of_mem_lines (hsublist.subset ?_)⟩
  exact List.mem_filter.2 ⟨hline, decide_eq_true hplain⟩

/-- A fragment that does not end its last line. -/
def shelf : ResourceTable where
  fragments := Table.empty.insert "a.glsl" "A"

theorem expand_linewise_shelf :
    expand shelf.resolver .fragment "M\n"
        ("x\r\n  #include \"a.glsl\"\n" ++ "\t#include \"material\" \r\ny") =
      .ok ⟨"x\r\nA\r\nM\ny".toList, true⟩ ∧
    expand shelf.resolver .vertex "M\n" "// #include \"b.glsl\"\n" =
      .ok ⟨"// #include \"b.glsl\"\n".toList, false⟩ ∧
    expand shelf.resolver .fragment "M\n" "#include \"a.glsl\"\n#include \"b.glsl\"" =
      .error (.compile (.missingInclude "b.glsl")) ∧
    ∃ head tail, "x\r\nA\r\nM\ny".toList = head ++ "y".toList ++ tail ∧ Text.Closed head := by
  obtain ⟨happend, -, hfails, hkept⟩ := expand_linewise shelf.resolver .fragment "M\n"
  obtain ⟨-, hplain, -⟩ := expand_linewise shelf.resolver .vertex "M\n"
  have hmixed := (happend "x\r\n  #include \"a.glsl\"\n" "\t#include \"material\" \r\ny"
    (by decide)).trans (show _ = .ok ⟨"x\r\nA\r\nM\ny".toList, true⟩ by decide +kernel)
  refine ⟨hmixed, hplain _ (by decide +kernel), ?fails, ?kept⟩
  case fails =>
    refine (hfails shelf.answers _ _).2 ⟨["#include \"a.glsl\"\n".toList],
      "#include \"b.glsl\"".toList, [], "b.glsl", by decide +kernel,
      ⟨target?_eq_some_iff.1 rfl, by decide, rfl⟩, ?_, rfl⟩
    rintro l hl n ⟨hn, -, hnone⟩
    obtain rfl := List.mem_singleton.1 hl
    obtain rfl : "a.glsl" = n := directive_unique (target?_eq_some_iff.1 rfl) hn
    cases hnone
  case kept =>
    obtain ⟨-, hlines⟩ := hkept _ _ (by decide) hmixed
    exact hlines "y".toList (by decide +kernel) (by decide +kernel)

end MaterialGraph.Include
