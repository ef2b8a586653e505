import MaterialGraph.Json.Basic

/-!
Tokens of JSON text. A token is read from the front of a text and leaves a
shorter rest.
-/

namespace MaterialGraph.Json

inductive Token
  | openArray | closeArray
  | openObject | closeObject
  | colon | comma
  | scalar (value : Json)
deriving Inhabited

/-- A piece of a quoted text: a character, or a UTF-16 unit given by an escape. -/
inductive Piece
  | char (c : Char)
  | unit (code : Nat)

namespace Piece

def isLead (code : Nat) : Bool :=
  0xd800 ≤ code && code < 0xdc00

def isTrail (code : Nat) : Bool :=
  0xdc00 ≤ code && code < 0xe000

def pair (lead trail : Nat) : Char :=
  Char.ofNat (0x10000 + (lead - 0xd800) * 0x400 + (trail - 0xdc00))

/-- The text of pieces given last first. A lead must be followed by a trail, and
a trail must follow a lead. -/
def assemble (done : List Char) : List Piece → Option (List Char)
  | [] => some done
  | char c :: rest => assemble (c :: done) rest
  | unit code :: rest =>
    if isTrail code then
      match rest with
      | unit lead :: rest =>
        if isLead lead then assemble (pair lead code :: done) rest else none
      | _ => none
    else if isLead code then none
    else assemble (Char.ofNat code :: done) rest

end Piece

namespace Token

def isSpace (c : Char) : Bool :=
  c == ' ' || c == '\t' || c == '\n' || c == '\r'

def hexDigit? (c : Char) : Option Nat :=
  if '0' ≤ c ∧ c ≤ '9' then some (c.toNat - '0'.toNat)
  else if 'a' ≤ c ∧ c ≤ 'f' then some (c.toNat - 'a'.toNat + 10)
  else if 'A' ≤ c ∧ c ≤ 'F' then some (c.toNat - 'A'.toNat + 10)
  else none

def hexUnit? (a b c d : Char) : Option Nat := do
  let a ← hexDigit? a
  let b ← hexDigit? b
  let c ← hexDigit? c
  let d ← hexDigit? d
  some (((a * 16 + b) * 16 + c) * 16 + d)

def escaped? : Char → Option Char
  | '"' => some '"'
  | '\\' => some '\\'
  | '/' => some '/'
  | 'b' => some '\x08'
  | 'f' => some '\x0c'
  | 'n' => some '\n'
  | 'r' => some '\r'
  | 't' => some '\t'
  | _ => none

/-- Reads a quoted text behind its opening quote. -/
def readText (done : List Piece) : List Char → Option (Option String × List Char)
  | [] => none
  | '"' :: rest => some ((Piece.assemble [] done).map String.ofList, rest)
  | '\\' :: 'u' :: a :: b :: c :: d :: rest =>
    match hexUnit? a b c d with
    | some code => readText (.unit code :: done) rest
    | none => none
  | '\\' :: e :: rest =>
    match escaped? e with
    | some c => readText (.char c :: done) rest
    | none => none
  | c :: rest => if c.toNat < 0x20 then none else readText (.char c :: done) rest

def natOfDigits (digits : List Char) : Nat :=
  digits.foldl (fun n d => n * 10 + (d.toNat - '0'.toNat)) 0

/-- The digits before the point: no leading zero. -/
def wholePart : List Char → List Char
  | '0' :: _ => ['0']
  | s => s.takeWhile Char.isDigit

def fractionPart : List Char → List Char
  | '.' :: d :: rest => if d.isDigit then '.' :: d :: rest.takeWhile Char.isDigit else []
  | _ => []

def exponentDigits (mark : List Char) : List Char → List Char
  | d :: rest => if d.isDigit then mark ++ d :: rest.takeWhile Char.isDigit else []
  | [] => []

def exponentPart : List Char → List Char
  | e :: '+' :: rest => if e == 'e' || e == 'E' then exponentDigits [e, '+'] rest else []
  | e :: '-' :: rest => if e == 'e' || e == 'E' then exponentDigits [e, '-'] rest else []
  | e :: rest => if e == 'e' || e == 'E' then exponentDigits [e] rest else []
  | [] => []

def signPart : List Char → List Char
  | '-' :: _ => ['-']
  | _ => []

/-- Minus zero is no integer literal. -/
def readNumber (s : List Char) : Option (Json × List Char) :=
  let sign := signPart s
  let whole := wholePart (s.drop sign.length)
  let afterWhole := (s.drop sign.length).drop whole.length
  let fraction := fractionPart afterWhole
  let exponent := exponentPart (afterWhole.drop fraction.length)
  let rest := (afterWhole.drop fraction.length).drop exponent.length
  if whole.isEmpty then none
  else if !fraction.isEmpty || !exponent.isEmpty || (!sign.isEmpty && whole == ['0']) then
    some (.real (String.ofList (sign ++ whole ++ fraction ++ exponent)), rest)
  else if sign.isEmpty then some (.int (natOfDigits whole), rest)
  else some (.int (-(natOfDigits whole : Int)), rest)

/-- Reads the token that starts with the first character of a text. -/
def read? : List Char → Option (Token × List Char)
  | [] => none
  | '[' :: rest => some (.openArray, rest)
  | ']' :: rest => some (.closeArray, rest)
  | '\x7b' :: rest => some (.openObject, rest)
  | '\x7d' :: rest => some (.closeObject, rest)
  | ':' :: rest => some (.colon, rest)
  | ',' :: rest => some (.comma, rest)
  | '"' :: rest => (readText [] rest).map fun p => (.scalar (.text p.1), p.2)
  | 'n' :: 'u' :: 'l' :: 'l' :: rest => some (.scalar .null, rest)
  | 't' :: 'r' :: 'u' :: 'e' :: rest => some (.scalar (.bool true), rest)
  | 'f' :: 'a' :: 'l' :: 's' :: 'e' :: rest => some (.scalar (.bool false), rest)
  | s => (readNumber s).map fun p => (.scalar p.1, p.2)

private theorem readText_shorter (done : List Piece) (s : List Char)
    {t : Option String} {rest : List Char} (h : readText done s = some (t, rest)) :
    rest.length < s.length := by
  fun_induction readText done s with
  | case1 => simp at h
  | case2 => simp_all
  | case3 done a b c d r code hcode ih => have := ih h; simp only [List.length_cons]; omega
  | case4 => simp at h
  | case5 done e r hne c hc ih => have := ih h; simp only [List.length_cons]; omega
  | case6 => simp at h
  | case7 => simp at h
  | case8 done c r h1 h2 h3 h4 ih => have := ih h; simp only [List.length_cons]; omega

private theorem wholePart_length_le (s : List Char) : (wholePart s).length ≤ s.length := by
  unfold wholePart
  split
  · simp
  · exact (List.takeWhile_sublist _).length_le

private theorem readNumber_shorter {s : List Char} {v : Json} {rest : List Char}
    (h : readNumber s = some (v, rest)) : rest.length < s.length := by
  have hwhole := wholePart_length_le (s.drop (signPart s).length)
  obtain ⟨⟨m, n, rfl⟩, hne⟩ : (∃ m n, rest = (((s.drop (signPart s).length).drop
      (wholePart (s.drop (signPart s).length)).length).drop m).drop n) ∧
      wholePart (s.drop (signPart s).length) ≠ [] := by
    unfold readNumber at h
    simp only at h
    split at h
    · simp at h
    · next hne =>
      have hne : wholePart (s.drop (signPart s).length) ≠ [] := by simpa using hne
      split at h
      · simp only [Option.some.injEq, Prod.mk.injEq] at h
        exact ⟨⟨_, _, h.2.symm⟩, hne⟩
      · split at h <;>
        · simp only [Option.some.injEq, Prod.mk.injEq] at h
          exact ⟨⟨_, _, h.2.symm⟩, hne⟩
  have hpos := List.length_pos_iff.2 hne
  simp only [List.length_drop] at hwhole ⊢
  omega

theorem read?_shorter {s : List Char} {t : Token} {rest : List Char}
    (h : read? s = some (t, rest)) : rest.length < s.length := by
  unfold read? at h
  split at h
  case h_8 r =>
    obtain ⟨⟨text, rest'⟩, hread, heq⟩ := Option.map_eq_some_iff.1 h
    have := readText_shorter [] r hread
    simp only [Prod.mk.injEq] at heq
    simp only [List.length_cons, ← heq.2]
    omega
  case h_12 =>
    obtain ⟨⟨v, rest'⟩, hread, heq⟩ := Option.map_eq_some_iff.1 h
    simp only [Prod.mk.injEq] at heq
    exact heq.2 ▸ readNumber_shorter hread
  all_goals first | (simp at h; done) | skip
  all_goals
    simp only [Option.some.injEq, Prod.mk.injEq] at h
    simp only [← h.2, List.length_cons]
    omega

end Token

end MaterialGraph.Json
