import MaterialGraph.Proofs.BasicType
import MaterialGraph.Proofs.Body.Accessor
import MaterialGraph.Proofs.Body.Order
import MaterialGraph.Proofs.NodeType.Description
import MaterialGraph.Proofs.Text.Dotted
import MaterialGraph.Proofs.Text.Line

/-!
How bodies are written. A line shows all of a statement but the registers of the arguments
of a call and which of them take values. It can be read if the function called is named by
an identifier and no text that is passed has what separates arguments. Main statements: the
lines of a body are its statements, one line each, between those that open and close the
function; bodies of passes that call functions by identifiers have the same text exactly if
they show the same statements.
-/

namespace MaterialGraph

open NodeType (EndsName endsName_cons identifier_append_inj isIdentifier_iff
  notMem_of_isIdentifier)
open NodeType.Description (isIdentifier)

/-- The operand that an argument is written as. -/
def Argument.operand : Argument → Operand
  | input value => value
  | output n => .temp n

/-- What the line of a statement shows. -/
inductive Shown
  | declare (type : BasicType) (temp : Nat)
  | call (result : Option Nat) (function : String) (own : Bool) (operands : List Operand)
  | assign (field : Field) (value : Operand)
deriving DecidableEq, Inhabited

def Statement.shown : Statement → Shown
  | declare type n => .declare type n
  | call c => .call c.result c.function c.own (c.arguments.map fun a => a.2.operand)
  | assign field value => .assign field value

/-- Whether an operand can be told from what it is written as, which ends no line. -/
def Operand.Legible (o : Operand) : Prop :=
  ∀ s, o = .text s → '\n' ∉ s.toList ∧ ∀ n, s ≠ tempName n

namespace Call

/-- Commas and blanks separate the arguments of a call. -/
def isSeparator (d : Char) : Bool :=
  d == ',' || d == ' '

/-- Whether a text is that of a single argument. -/
def SingleArgument (w : List Char) : Prop :=
  w ≠ [] ∧ ∀ d ∈ w, (!isSeparator d) = true

theorem not_isSeparator {d : Char} (h : d.isAlphanum = true) : (!isSeparator d) = true := by
  rw [Bool.not_eq_true', isSeparator, Bool.or_eq_false_iff]
  exact ⟨beq_false_of_ne fun heq => by simp [heq] at h,
    beq_false_of_ne fun heq => by simp [heq] at h⟩

end Call

def Operand.Separable (o : Operand) : Prop :=
  Call.SingleArgument o.render.toList

/-- Whether a statement can be read off its line. -/
def Statement.Legible : Statement → Prop
  | declare _ _ => True
  | call c => isIdentifier c.function = true ∧
      ∀ a ∈ c.arguments, a.2.operand.Legible ∧ a.2.operand.Separable
  | assign _ value => value.Legible

variable {o o' : Operand} {c c' : Call} {s t : Statement} {own own' : Bool} {m n : Nat}

section Operands

theorem toList_tempName (n : Nat) :
    (tempName n).toList = 'r' :: (Nat.toDigits 10 n).leftpad 3 '0' :=
  String.toList_ofList

theorem isAlphanum_of_mem_tempName {d : Char} (h : d ∈ (tempName n).toList) :
    d.isAlphanum = true := by
  rw [toList_tempName] at h
  rcases List.mem_cons.1 h with rfl | h
  · rfl
  · rcases List.mem_append.1 h with hzero | hdigit
    · rw [List.eq_of_mem_replicate hzero]
      rfl
    · simp [Char.isAlphanum, isDigit_of_mem_toDigits hdigit]

theorem notMem_tempName {d : Char} (hd : d.isAlphanum = false) (n : Nat) :
    d ∉ (tempName n).toList := fun h =>
  Bool.eq_false_iff.1 hd (isAlphanum_of_mem_tempName h)

theorem ne_tempName {s : String} (h : s.toList.head? ≠ some 'r') (n : Nat) : s ≠ tempName n := by
  rintro rfl
  rw [toList_tempName] at h
  exact h rfl

theorem Argument.render_operand (a : Argument) : a.operand.render = a.render := by
  cases a <;> rfl

/-- An operand can be told from what it is written as. -/
theorem Operand.Legible.render_inj (h : o.Legible) (h' : o'.Legible) :
    o.render = o'.render ↔ o = o' := by
  refine ⟨fun heq => ?_, congrArg render⟩
  cases o with
  | temp m =>
    cases o' with
    | temp n => rw [tempName_injective heq]
    | text s => exact absurd heq.symm ((h' s rfl).2 m)
  | text s =>
    cases o' with
    | temp n => exact absurd heq ((h s rfl).2 n)
    | text s' => rw [show s = s' from heq]

theorem Operand.Legible.feed_notMem (h : o.Legible) : '\n' ∉ o.render.toList := by
  cases o with
  | temp n => exact notMem_tempName rfl n
  | text s => exact (h s rfl).1

theorem separable_temp (n : Nat) : (Operand.temp n).Separable := by
  refine ⟨fun hnil => ?_, fun d hd => Call.not_isSeparator (isAlphanum_of_mem_tempName hd)⟩
  rw [Operand.render, toList_tempName] at hnil
  cases hnil

end Operands

namespace Call

/-- A function of the node type's own is passed the globals behind the other arguments. -/
def passedGlobals : Bool → List Char
  | true => ' ' :: "P_GLOBALS".toList
  | false => []

/-- The arguments of a call as they stand between its parentheses. -/
def enclosed (own : Bool) (words : List (List Char)) : List Char :=
  [',', ' '].intercalate words ++ passedGlobals own

/-- What follows the first argument. -/
def following (own : Bool) (rest : List (List Char)) : List Char :=
  (rest.flatMap fun w => ',' :: ' ' :: w) ++ passedGlobals own

theorem enclosed_nil (own : Bool) : enclosed own [] = following own [] := rfl

theorem following_cons (own : Bool) (w : List Char) (rest : List (List Char)) :
    following own (w :: rest) = ',' :: ' ' :: (w ++ following own rest) := by
  simp [following]

theorem enclosed_cons (own : Bool) (w : List Char) (rest : List (List Char)) :
    enclosed own (w :: rest) = w ++ following own rest := by
  induction rest generalizing w with
  | nil => rw [enclosed, List.intercalate_singleton, following, List.flatMap_nil, List.nil_append]
  | cons w' rest ih =>
    calc
      enclosed own (w :: w' :: rest) = w ++ [',', ' '] ++ enclosed own (w' :: rest) := by
        rw [enclosed, enclosed, List.intercalate_cons_cons,
          List.append_assoc _ _ (passedGlobals own)]
      _ = w ++ following own (w' :: rest) := by
        rw [ih, following_cons, List.append_assoc]
        rfl

theorem takeWhile_following (own : Bool) (rest : List (List Char)) :
    (following own rest).takeWhile (fun d => !isSeparator d) = [] := by
  cases rest with
  | nil => cases own <;> rfl
  | cons w rest => rfl

variable {l l' : List (List Char)}

theorem passedGlobals_inj (h : passedGlobals own = passedGlobals own') : own = own' := by
  cases own <;> cases own' <;> first | rfl | cases h

theorem passedGlobals_ne_cons (own : Bool) (w : List Char) : passedGlobals own ≠ ',' :: w := by
  cases own <;> simp [passedGlobals]

/-- The first argument can be told from what follows it. -/
theorem first_inj {w w' : List Char} (hw : SingleArgument w) (hw' : SingleArgument w')
    (heq : w ++ following own l = w' ++ following own' l') :
    w = w' ∧ following own l = following own' l' :=
  takeWhile_append_inj hw.2 hw'.2 (takeWhile_following own l) (takeWhile_following own' l') heq

theorem following_inj (h : ∀ w ∈ l, SingleArgument w) (h' : ∀ w ∈ l', SingleArgument w)
    (heq : following own l = following own' l') : own = own' ∧ l = l' := by
  induction l generalizing l' with
  | nil =>
    cases l' with
    | nil => exact ⟨passedGlobals_inj heq, rfl⟩
    | cons w' rest' =>
      rw [following_cons] at heq
      exact absurd heq (passedGlobals_ne_cons own _)
  | cons w rest ih =>
    rw [following_cons] at heq
    cases l' with
    | nil => exact absurd heq.symm (passedGlobals_ne_cons own' _)
    | cons w' rest' =>
      rw [following_cons] at heq
      rw [List.forall_mem_cons] at h h'
      obtain ⟨hw, hrest⟩ := first_inj h.1 h'.1 (List.cons.inj (List.cons.inj heq).2).2
      obtain ⟨hown, hwords⟩ := ih h.2 h'.2 hrest
      exact ⟨hown, by rw [hw, hwords]⟩

/-- The first argument is told from none by not being empty. -/
theorem following_ne_append {w : List Char} (hw : SingleArgument w) (t : List Char) :
    following own [] ≠ w ++ t := by
  intro heq
  have hwhile := takeWhile_following own []
  rw [heq, List.takeWhile_append_of_pos hw.2] at hwhile
  exact hw.1 (List.append_eq_nil_iff.1 hwhile).1

/-- The arguments can be told from what stands between the parentheses. -/
theorem enclosed_inj (h : ∀ w ∈ l, SingleArgument w) (h' : ∀ w ∈ l', SingleArgument w)
    (heq : enclosed own l = enclosed own' l') : own = own' ∧ l = l' := by
  cases l with
  | nil =>
    cases l' with
    | nil => exact ⟨passedGlobals_inj heq, rfl⟩
    | cons w' rest' =>
      rw [enclosed_nil, enclosed_cons] at heq
      exact absurd heq (following_ne_append (h' w' List.mem_cons_self) _)
  | cons w rest =>
    rw [enclosed_cons] at heq
    cases l' with
    | nil => exact absurd heq.symm (following_ne_append (h w List.mem_cons_self) _)
    | cons w' rest' =>
      rw [enclosed_cons] at heq
      rw [List.forall_mem_cons] at h h'
      obtain ⟨hw, hrest⟩ := first_inj h.1 h'.1 heq
      obtain ⟨hown, hwords⟩ := following_inj h.2 h'.2 hrest
      exact ⟨hown, by rw [hw, hwords]⟩

theorem feed_notMem_enclosed (h : ∀ w ∈ l, '\n' ∉ w) : '\n' ∉ enclosed own l := by
  have hglobals : '\n' ∉ passedGlobals own := by cases own <;> decide
  cases l with
  | nil => exact hglobals
  | cons w rest =>
    rw [List.forall_mem_cons] at h
    simp only [enclosed_cons, following, List.mem_append, List.mem_flatMap, not_or, not_exists,
      not_and]
    refine ⟨h.1, fun w hw hmem => ?_, hglobals⟩
    have hbehind : '\n' ∈ w := by simpa using hmem
    exact h.2 w hw hbehind

end Call

section Statements

theorem isIdentifier_tempName (n : Nat) : isIdentifier (tempName n) = true := by
  refine isIdentifier_iff.2 ⟨fun d hd => .inl (isAlphanum_of_mem_tempName hd), 'r', ?_, rfl⟩
  rw [toList_tempName, List.head?_cons]

/-- The arguments of a call as they are written. -/
def Call.words (c : Call) : List (List Char) :=
  c.arguments.map fun a => a.2.operand.render.toList

/-- The call from its parenthesis on. -/
def Call.tail (c : Call) : List Char :=
  '(' :: (enclosed c.own c.words ++ [')', ';'])

/-- The word that the line of a statement starts with. -/
def Statement.word : Statement → String
  | declare type _ => type.name
  | call c => c.result.elim c.function tempName
  | assign _ _ => "R"

/-- What follows the word. -/
def Statement.tail : Statement → List Char
  | declare _ n => ' ' :: ((tempName n).toList ++ [';'])
  | call c => (c.result.elim [] fun _ => " = ".toList ++ c.function.toList) ++ c.tail
  | assign field value =>
    '.' :: (field.name.toList ++ (" = ".toList ++ (value.render.toList ++ [';'])))

theorem Statement.toList_render (s : Statement) :
    s.render.toList = '\t' :: (s.word.toList ++ s.tail) ++ ['\r', '\n'] := by
  have hwords (c : Call) : (c.arguments.map fun a => a.2.render).map String.toList = c.words := by
    simp [Call.words, Argument.render_operand]
  cases s with
  | declare type n => simp [render, word, tail]
  | assign field value => simp [render, word, tail]
  | call c =>
    have hglobals : (if c.own then " P_GLOBALS);" else ");").toList =
        Call.passedGlobals c.own ++ [')', ';'] := by
      cases c.own <;> rfl
    cases hresult : c.result with
    | none =>
      simp [render, word, tail, Call.render, Call.tail, hresult, Call.enclosed, hglobals, hwords,
        String.toList_intercalate]
    | some n =>
      simp [render, word, tail, Call.render, Call.tail, hresult, Call.enclosed, hglobals, hwords,
        String.toList_intercalate]

theorem Statement.Legible.isIdentifier_word (h : s.Legible) : isIdentifier s.word = true := by
  cases s with
  | declare type n =>
    have htype : isIdentifier type.name = true := by cases type <;> decide
    exact htype
  | assign field value => exact (by decide : isIdentifier "R" = true)
  | call c =>
    rw [word]
    cases c.result with
    | none => exact h.1
    | some n => exact isIdentifier_tempName n

theorem Statement.endsName_tail (s : Statement) : EndsName s.tail := by
  cases s with
  | declare type n => exact endsName_cons rfl (by decide) _
  | assign field value => exact endsName_cons rfl (by decide) _
  | call c =>
    rw [tail]
    cases c.result with
    | none => exact endsName_cons rfl (by decide) _
    | some n => exact endsName_cons rfl (by decide) _

/-- Lists that a function maps to the same are not told apart by what it determines. -/
theorem map_eq_of_map_eq {α β γ : Type} {f : α → β} {g : α → γ} {l l' : List α}
    (h : ∀ a ∈ l, ∀ b ∈ l', f a = f b → g a = g b) (heq : l.map f = l'.map f) :
    l.map g = l'.map g := by
  induction l generalizing l' with
  | nil => rw [List.map_eq_nil_iff.1 heq.symm]
  | cons a rest ih =>
    obtain ⟨b, rest', rfl, hb, hrest⟩ := List.map_eq_cons_iff.1 heq.symm
    have hothers : ∀ c ∈ rest, ∀ d ∈ rest', f c = f d → g c = g d := fun c hc d hd =>
      h c (List.mem_cons_of_mem _ hc) d (List.mem_cons_of_mem _ hd)
    have hfirst := h a List.mem_cons_self b List.mem_cons_self hb.symm
    rw [List.map_cons, List.map_cons, hfirst, ih hothers hrest.symm]

theorem Call.tail_inj (h : (Statement.call c).Legible) (h' : (Statement.call c').Legible)
    (heq : c.tail = c'.tail) : c.own = c'.own ∧
      (c.arguments.map fun a => a.2.operand) = c'.arguments.map fun a => a.2.operand := by
  have hsingle {c : Call} (h : (Statement.call c).Legible) : ∀ w ∈ c.words, Call.SingleArgument w :=
    List.forall_mem_map.2 fun a ha => (h.2 a ha).2
  have henclosed := List.append_cancel_right (List.cons.inj heq).2
  obtain ⟨hown, hwords⟩ := enclosed_inj (hsingle h) (hsingle h') henclosed
  refine ⟨hown, map_eq_of_map_eq (fun a ha b hb hrender => ?_) hwords⟩
  exact ((h.2 a ha).1.render_inj (h'.2 b hb).1).1 (String.toList_injective hrender)

theorem Field.name_inj {f f' : Field} (h : f.name = f'.name) : f = f' := by
  cases f <;> cases f' <;> first | rfl | exact absurd h (by decide)

/-- A call can be told from its line. -/
theorem Call.shown_of_line (h : (Statement.call c).Legible) (h' : (Statement.call c').Legible)
    (hword : (Statement.call c).word = (Statement.call c').word)
    (htail : (Statement.call c).tail = (Statement.call c').tail) :
    (Statement.call c).shown = (Statement.call c').shown := by
  obtain ⟨result, function, own, arguments⟩ := c
  obtain ⟨result', function', own', arguments'⟩ := c'
  cases result with
  | none =>
    cases result' with
    | some n => cases htail
    | none =>
      obtain ⟨hown, hoperands⟩ := Call.tail_inj h h' htail
      obtain rfl : function = function' := hword
      exact congrArg₂ (Shown.call none function) hown hoperands
  | some m =>
    cases result' with
    | none => cases htail
    | some n =>
      obtain rfl : m = n := tempName_injective hword
      simp only [Statement.tail, Option.elim_some, List.append_assoc, List.append_cancel_left_eq]
        at htail
      obtain ⟨rfl, hrest⟩ : function = function' ∧ _ :=
        identifier_append_inj h.1 h'.1 (endsName_cons rfl (by decide) _)
          (endsName_cons rfl (by decide) _) htail
      obtain ⟨hown, hoperands⟩ := Call.tail_inj h h' hrest
      exact congrArg₂ (Shown.call (some m) function) hown hoperands

theorem Statement.tail_declare_ne_call (type : BasicType) (n : Nat) (c : Call) :
    (declare type n).tail ≠ (call c).tail := by
  cases hresult : c.result <;> simp [tail, Call.tail, hresult, toList_tempName]

theorem Statement.tail_call_ne_assign (c : Call) (field : Field) (value : Operand) :
    (call c).tail ≠ (assign field value).tail := by
  cases hresult : c.result <;> simp [tail, Call.tail, hresult]

theorem Statement.tail_assign_inj {field field' : Field} (h : o.Legible) (h' : o'.Legible)
    (heq : (assign field o).tail = (assign field' o').tail) : field = field' ∧ o = o' := by
  have hname (f : Field) : ∀ d ∈ f.name.toList, (d != ' ') = true :=
    List.all_eq_true.1 (by cases f <;> decide)
  obtain ⟨hfield, hvalue⟩ := takeWhile_append_inj (p := (· != ' ')) (hname field) (hname field') rfl
    rfl (List.cons.inj heq).2
  refine ⟨Field.name_inj (String.toList_injective hfield), (h.render_inj h').1 ?_⟩
  exact String.toList_injective (List.append_cancel_right (List.append_cancel_left hvalue))

theorem Statement.render_of_shown (h : s.shown = t.shown) : s.render = t.render := by
  cases s with
  | declare type m =>
    cases t with
    | declare type' n =>
      obtain ⟨rfl, rfl⟩ := Shown.declare.inj h
      rfl
    | call c => cases h
    | assign field value => cases h
  | call c =>
    cases t with
    | declare type n => cases h
    | call c' =>
      obtain ⟨hresult, hfunction, hown, hoperands⟩ := Shown.call.inj h
      have hwords := congrArg (List.map Operand.render) hoperands
      simp only [List.map_map, Function.comp_def, Argument.render_operand] at hwords
      rw [render, render, Call.render, Call.render, hresult, hfunction, hown, hwords]
    | assign field value => cases h
  | assign field value =>
    cases t with
    | declare type n => cases h
    | call c => cases h
    | assign field' value' =>
      obtain ⟨rfl, rfl⟩ := Shown.assign.inj h
      rfl

/-- Statements have the same line exactly if it shows the same of them. -/
theorem Statement.Legible.render_inj (hs : s.Legible) (ht : t.Legible) :
    s.render = t.render ↔ s.shown = t.shown := by
  refine ⟨fun heq => ?_, render_of_shown⟩
  have hline := congrArg String.toList heq
  rw [toList_render, toList_render] at hline
  obtain ⟨hword, htail⟩ := identifier_append_inj hs.isIdentifier_word ht.isIdentifier_word
    s.endsName_tail t.endsName_tail (List.cons.inj (List.append_cancel_right hline)).2
  cases s with
  | declare type m =>
    cases t with
    | declare type' n =>
      obtain rfl : type = type' := BasicType.foldCase_name_injective (congrArg _ hword)
      have hname := List.append_cancel_right (List.cons.inj htail).2
      rw [tempName_injective (String.toList_injective hname)]
    | call c => exact absurd htail (tail_declare_ne_call type m c)
    | assign field value => cases htail
  | call c =>
    cases t with
    | declare type n => exact absurd htail.symm (tail_declare_ne_call type n c)
    | call c' => exact Call.shown_of_line hs ht hword htail
    | assign field value => exact absurd htail (tail_call_ne_assign c field value)
  | assign field value =>
    cases t with
    | declare type n => cases htail
    | call c => exact absurd htail.symm (tail_call_ne_assign c field value)
    | assign field' value' =>
      obtain ⟨rfl, rfl⟩ := tail_assign_inj hs ht htail
      rfl

theorem Statement.Legible.feed_notMem_tail (h : s.Legible) : '\n' ∉ s.tail := by
  cases s with
  | declare type n =>
    have hname : '\n' ∉ (tempName n).toList := notMem_tempName rfl n
    simp [tail, hname]
  | call c =>
    have hfunction : '\n' ∉ c.function.toList := notMem_of_isIdentifier h.1 rfl (by decide)
    have henclosed : '\n' ∉ Call.enclosed c.own c.words :=
      Call.feed_notMem_enclosed (List.forall_mem_map.2 fun a ha => (h.2 a ha).1.feed_notMem)
    cases hresult : c.result <;> simp [tail, Call.tail, hresult, hfunction, henclosed]
  | assign field value =>
    have hname : '\n' ∉ field.name.toList := by cases field <;> decide
    have hvalue : '\n' ∉ value.render.toList := Operand.Legible.feed_notMem h
    simp [tail, hname, hvalue]

/-- A statement is a line of its own. -/
theorem Statement.Legible.isLine_render (h : s.Legible) : Text.IsLine s.render.toList := by
  have hword : '\n' ∉ s.word.toList :=
    notMem_of_isIdentifier h.isIdentifier_word rfl (by decide)
  refine ⟨'\t' :: (s.word.toList ++ s.tail) ++ ['\r'], ?_, ?_⟩
  · simp [hword, h.feed_notMem_tail]
  · rw [toList_render, List.append_assoc]
    rfl

end Statements

namespace Body

variable {b b' : Body} {entry entry' : String}

/-- The lines of a function with the body: its statements between those that open and close
the function. -/
def lines (entry : String) (b : Body) : List String :=
  ["M " ++ entry ++ "(VOID_GLOBALS)\r\n", "\x7b\r\n", "\tM R;\r\n"] ++ b.map Statement.render ++
    ["\treturn R;\r\n", "\x7d\r\n"]

theorem render_eq_join (entry : String) (b : Body) :
    b.render entry = String.join (b.lines entry) := by
  refine String.toList_injective ?_
  simp [render, lines]

theorem isLine_of_mem_lines (hentry : '\n' ∉ entry.toList) (hb : ∀ s ∈ b, s.Legible) :
    ∀ line ∈ b.lines entry, Text.IsLine line.toList := by
  intro line hline
  simp only [lines, List.mem_append, List.mem_map, List.mem_cons, List.not_mem_nil, or_false]
    at hline
  rcases hline with ((rfl | rfl | rfl) | ⟨s, hs, rfl⟩) | rfl | rfl
  · exact ⟨('M' :: ' ' :: entry.toList) ++ "(VOID_GLOBALS)\r".toList, by simp [hentry], by simp⟩
  · exact ⟨"\x7b\r".toList, by decide, by decide⟩
  · exact ⟨"\tM R;\r".toList, by decide, by decide⟩
  · exact (hb s hs).isLine_render
  · exact ⟨"\treturn R;\r".toList, by decide, by decide⟩
  · exact ⟨"\x7d\r".toList, by decide, by decide⟩

/-- The lines of the text of a body are its statements, one line each. -/
theorem lines_render (hentry : '\n' ∉ entry.toList) (hb : ∀ s ∈ b, s.Legible) :
    Text.lines (b.render entry).toList = (b.lines entry).map String.toList := by
  rw [render_eq_join, String.toList_join, List.flatMap_def]
  exact Text.lines_flatten (List.forall_mem_map.2 (isLine_of_mem_lines hentry hb))

/-- The text of a body determines what it shows of the statements. -/
theorem render_inj (hentry : '\n' ∉ entry.toList) (hentry' : '\n' ∉ entry'.toList)
    (hb : ∀ s ∈ b, s.Legible) (hb' : ∀ s ∈ b', s.Legible) : b.render entry = b'.render entry' ↔
      entry = entry' ∧ b.map Statement.shown = b'.map Statement.shown := by
  constructor
  · intro heq
    have hlines : b.lines entry = b'.lines entry' := by
      rw [← Text.map_toList_inj, ← lines_render hentry hb, heq, lines_render hentry' hb']
    obtain ⟨hopening, hstatements⟩ := List.append_inj (List.append_cancel_right hlines) rfl
    refine ⟨?_, map_eq_of_map_eq (fun s hs t ht hline => ?_) hstatements⟩
    · have hfirst := (List.cons.inj hopening).1
      simpa using hfirst
    · exact ((hb s hs).render_inj (hb' t ht)).1 hline
  · rintro ⟨rfl, hshown⟩
    have hstatements := map_eq_of_map_eq (fun s _ t _ => Statement.render_of_shown) hshown
    rw [render, render, hstatements]

section Emission

variable {p q : PassGraph} {access : Leaf → Outcome String} {A B : Accessors} {l : Leaf}
  {order : List (Nat × Nat)} {x : Nat × Nat}

theorem legible_white : white.Legible := by
  intro s hs
  cases hs
  exact ⟨by decide, ne_tempName (by decide)⟩

theorem text_ne_tempName (a : Accessor) (k n : Nat) : a.text k ≠ tempName n := by
  refine (Accessor.ne_text (fun a _ hprefix => ?_) a k).symm
  rw [toList_tempName] at hprefix
  cases a <;> simp [Accessor.opening] at hprefix

/-- Whether a character is neither a separator of arguments nor a line feed. -/
def isPlain (d : Char) : Bool :=
  !Call.isSeparator d && d != '\n'

theorem isPlain_of_isDigit {d : Char} (h : d.isDigit = true) : isPlain d = true := by
  have halphanum : d.isAlphanum = true := by rw [Char.isAlphanum, h, Bool.or_true]
  rw [isPlain, Call.not_isSeparator halphanum, Bool.true_and]
  exact bne_iff_ne.2 fun heq => by simp [heq] at h

theorem isPlain_of_mem_text {s : String} (h : A.text l = .ok s) :
    ∀ d ∈ s.toList, isPlain d = true := by
  rcases Accessors.text_eq_ok h with ⟨a, k, rfl⟩ | hs
  · have hall : ∀ a ∈ Accessor.all, (a.opening.toList ++ a.closing.toList).all isPlain = true := by
      decide
    have hparts := List.all_eq_true.1 (hall a (Accessor.mem_all a))
    intro d hd
    rw [Accessor.toList_text] at hd
    rcases List.mem_append.1 hd with hopening | hd
    · exact hparts d (List.mem_append_left _ hopening)
    · rcases List.mem_append.1 hd with hdigit | hclosing
      · exact isPlain_of_isDigit (isDigit_of_mem_toDigits hdigit)
      · exact hparts d (List.mem_append_right _ hclosing)
  · have hall : ∀ s ∈ Accessor.unnumbered, s.toList.all isPlain = true := by decide
    exact List.all_eq_true.1 (hall s hs)

/-- A leaf is read by a text that can be passed to a call. -/
theorem legible_text {s : String} (h : A.text l = .ok s) :
    (Operand.text s).Legible ∧ (Operand.text s).Separable := by
  have hplain {d : Char} (hd : d ∈ s.toList) : (!Call.isSeparator d) = true ∧ d ≠ '\n' := by
    have hboth := Bool.and_eq_true_iff.1 (isPlain_of_mem_text h d hd)
    exact ⟨hboth.1, bne_iff_ne.1 hboth.2⟩
  have hstart : s ≠ "" ∧ ∀ n, s ≠ tempName n := by
    rcases Accessors.text_eq_ok h with ⟨a, k, rfl⟩ | hs
    · refine ⟨fun hempty => ?_, text_ne_tempName a k⟩
      have hlist := congrArg String.toList hempty
      rw [Accessor.toList_text] at hlist
      exact Nat.toDigits_ne_nil (List.append_eq_nil_iff.1 (List.append_eq_nil_iff.1 hlist).2).1
    · have hall : ∀ s ∈ Accessor.unnumbered, s ≠ "" ∧ s.toList.head? ≠ some 'r' := by decide
      exact ⟨(hall s hs).1, ne_tempName (hall s hs).2⟩
  refine ⟨fun s' hs' => ?_, fun hnil => hstart.1 (String.toList_eq_nil_iff.1 hnil),
    fun d hd => (hplain hd).1⟩
  cases hs'
  exact ⟨fun hfeed => (hplain hfeed).2 rfl, hstart.2⟩

/-- Every call of a body is that of a node, with the operands of its inputs. -/
theorem exists_callOf (hg : p.graph.WellWired) (h : ofPass p access = .ok b) {c : Call}
    (hc : .call c ∈ b) : ∃ order x, CallOf p.graph access order x c := by
  obtain ⟨e, he, rfl, -⟩ := ofPass_keeps (callsKeep_ordered (sound_of_ofPass hg h) access)
    (assignsKeep_ordered p access) (.initial p access) h
  have hmem : c ∈ calls e.statements := List.mem_filterMap.2 ⟨_, hc, rfl⟩
  obtain ⟨x, -, hcall⟩ := (List.Forall₂.flip (R := flip _) he.calls).exists_mem c hmem
  exact ⟨e.firsts, x, hcall⟩

/-- A text that a call passes is that of a leaf. -/
theorem access_of_callOf (hc : CallOf p.graph access order x c) {r : Int} {a : Argument}
    (ha : (r, a) ∈ c.arguments) {s : String} (hs : a.operand = .text s) :
    ∃ l, access l = .ok s := by
  obtain ⟨n, items, -, hitems, rfl⟩ := hc
  cases a with
  | output m => cases hs
  | input value =>
    obtain ⟨-, k, i, hk, -, hvalue, -⟩ := input_mem_nodeCall.1 ha
    obtain ⟨b, -, -, hoperand⟩ :=
      (List.Forall₂.flip (R := flip _) hitems).exists_mem i (List.mem_of_getElem? hk)
    rw [hvalue, show value = .text s from hs] at hoperand
    obtain ⟨l, -, hl⟩ := operand?_eq_text hoperand
    exact ⟨l, hl⟩

/-- The body of a pass can be read if the functions that it calls are named by identifiers. -/
theorem legible_of_ofPass (hg : p.graph.WellWired) (h : ofPass p A.text = .ok b)
    (hnames : ∀ c, .call c ∈ b → isIdentifier c.function = true) : ∀ s ∈ b, s.Legible := by
  intro s hs
  cases s with
  | declare type n => trivial
  | call c =>
    obtain ⟨order, x, hcall⟩ := exists_callOf hg h hs
    refine ⟨hnames c hs, fun a ha => ?_⟩
    cases ho : a.2.operand with
    | temp m => exact ⟨nofun, separable_temp m⟩
    | text s =>
      obtain ⟨l, hl⟩ := access_of_callOf hcall ha ho
      exact legible_text hl
  | assign field value =>
    rcases ofPass_cases (sound_of_ofPass hg h) A.text with ⟨b', hb', -, htexts⟩ | ⟨l, f, -, -, hf⟩
    · cases h.symm.trans hb'
      cases value with
      | temp m => exact nofun
      | text t =>
        rcases htexts _ hs t List.mem_cons_self with hwhite | ⟨l, -, hl⟩
        · exact hwhite ▸ legible_white
        · exact (legible_text hl).1
    · cases h.symm.trans hf

/-- Bodies that call functions by identifiers have the same text exactly if they show the same
statements, whatever passes they come from. -/
theorem render_inj_of_ofPass (hp : p.graph.WellWired) (hq : q.graph.WellWired)
    (hb : ofPass p A.text = .ok b) (hb' : ofPass q B.text = .ok b')
    (hnames : ∀ c, .call c ∈ b ++ b' → isIdentifier c.function = true)
    (hentry : '\n' ∉ entry.toList) (hentry' : '\n' ∉ entry'.toList) :
    b.render entry = b'.render entry' ↔
      entry = entry' ∧ b.map Statement.shown = b'.map Statement.shown :=
  render_inj hentry hentry'
    (legible_of_ofPass hp hb fun c hc => hnames c (List.mem_append_left _ hc))
    (legible_of_ofPass hq hb' fun c hc => hnames c (List.mem_append_right _ hc))

end Emission

end Body

end MaterialGraph
