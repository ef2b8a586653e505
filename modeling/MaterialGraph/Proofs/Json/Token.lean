import MaterialGraph.Json.Printer
import MaterialGraph.Json.Token
import MaterialGraph.Proofs.Text.Number

/-!
The tokens of texts that were printed. A printed text or number is read back as one token,
and what stands behind it is left. A number has no end of its own, so it is only read back
before something that cannot continue it.
-/

namespace MaterialGraph.Json

/-- Whether a piece adds a character to a text. -/
def Piece.StandsFor (p : Piece) (c : Char) : Prop :=
  ∀ done before, assemble done (p :: before) = assemble (c :: done) before

namespace Token

/-- Whether nothing at the front of a text continues a number. -/
def EndsNumber (s : List Char) : Prop :=
  ∀ c ∈ s.head?, c.isDigit = false ∧ c ≠ '.' ∧ c ≠ 'e' ∧ c ≠ 'E'

variable {c : Char} {s rest : List Char}

section Texts

theorem standsFor_char (c : Char) : (Piece.char c).StandsFor c := fun _ _ => rfl

/-- Below the surrogates a unit is a character. -/
theorem standsFor_unit (h : c.toNat < 0x20) : (Piece.unit c.toNat).StandsFor c := by
  intro done before
  have htrail : Piece.isTrail c.toNat = false := by
    simp only [Piece.isTrail, Bool.and_eq_false_iff, decide_eq_false_iff_not]
    omega
  have hlead : Piece.isLead c.toNat = false := by
    simp only [Piece.isLead, Bool.and_eq_false_iff, decide_eq_false_iff_not]
    omega
  rw [Piece.assemble.eq_def]
  simp [htrail, hlead]

theorem hexUnit?_hexDigit :
    ∀ n < 0x20, hexUnit? '0' '0' (hexDigit (n / 16)) (hexDigit (n % 16)) = some n := by
  decide

theorem readText_cons {done : List Piece} (hquote : c ≠ '"') (hbackslash : c ≠ '\\')
    (hcontrol : ¬c.toNat < 0x20) : readText done (c :: s) = readText (.char c :: done) s := by
  rw [readText]
  · rw [if_neg hcontrol]
  · exact hquote
  · rintro _ _ _ _ _ rfl
    exact absurd rfl hbackslash
  · rintro _ _ rfl
    exact absurd rfl hbackslash

/-- A character is escaped to what is read as one piece. -/
theorem exists_readText_escape (c : Char) :
    ∃ p : Piece, p.StandsFor c ∧
      ∀ done s, readText done (escape c ++ s) = readText (p :: done) s := by
  unfold escape
  split
  case h_8 hquote hbackslash _ _ _ _ _ =>
    split
    · next hcontrol =>
      refine ⟨.unit c.toNat, standsFor_unit hcontrol, fun done s => ?_⟩
      simp only [List.cons_append, List.nil_append, readText, hexUnit?_hexDigit _ hcontrol]
    · next hcontrol =>
      exact ⟨.char c, standsFor_char c, fun done s => readText_cons hquote hbackslash hcontrol⟩
  all_goals exact ⟨.char _, standsFor_char _, fun _ _ => rfl⟩

/-- An escaped text is read up to its closing quote, behind the pieces read before it. -/
theorem readText_escape (done : List Piece) (cs rest : List Char) :
    readText done (cs.flatMap escape ++ '"' :: rest) =
      some ((Piece.assemble cs done).map String.ofList, rest) := by
  induction cs generalizing done with
  | nil => rfl
  | cons c cs ih =>
    obtain ⟨p, hp, hread⟩ := exists_readText_escape c
    rw [List.flatMap_cons, List.append_assoc, hread, ih, hp]

theorem read?_printText (t : String) (rest : List Char) :
    read? (printText (some t) ++ rest) = some (.scalar (.text (some t)), rest) := by
  have hread := readText_escape [] t.toList rest
  rw [Piece.assemble, Option.map_some, String.ofList_toList] at hread
  calc read? (printText (some t) ++ rest)
      = (readText [] (t.toList.flatMap escape ++ '"' :: rest)).map fun p =>
          (.scalar (.text p.1), p.2) := by
        simp only [printText, List.cons_append, List.append_assoc]
        rfl
    _ = some (.scalar (.text (some t)), rest) := by rw [hread, Option.map_some]

end Texts

section Numbers

theorem natOfDigits_toDigits (n : Nat) : natOfDigits (Nat.toDigits 10 n) = n := by
  have hvalue : natOfDigits (Nat.toDigits 10 n) = Nat.ofDigitChars 10 (Nat.toDigits 10 n) 0 := by
    unfold natOfDigits Nat.ofDigitChars
    simp only [Nat.mul_comm]
  rw [hvalue, Nat.ofDigitChars_ten_toDigits]

theorem wholePart_of_not_zero (h : ∀ s', s ≠ '0' :: s') :
    wholePart s = s.takeWhile Char.isDigit := by
  unfold wholePart
  split
  · exact absurd rfl (h _)
  · rfl

theorem EndsNumber.takeWhile_isDigit (h : EndsNumber s) : s.takeWhile Char.isDigit = [] := by
  cases s with
  | nil => rfl
  | cons c s => rw [List.takeWhile_cons_of_neg (by simp [(h c rfl).1])]

theorem wholePart_toDigits (h : EndsNumber rest) (n : Nat) :
    wholePart (Nat.toDigits 10 n ++ rest) = Nat.toDigits 10 n := by
  obtain ⟨d, digits, hcons, -⟩ := exists_toDigits_eq_cons n
  by_cases hzero : d = '0'
  · subst hzero
    cases digits with
    | nil => rw [hcons]; rfl
    | cons d digits => exact absurd hcons (toDigits_ne_zero_cons (List.cons_ne_nil d digits) n)
  · rw [wholePart_of_not_zero, takeWhile_toDigits_append h.takeWhile_isDigit]
    intro s' hs'
    rw [hcons, List.cons_append] at hs'
    exact hzero (List.cons.inj hs').1

theorem EndsNumber.fractionPart_eq (h : EndsNumber s) : fractionPart s = [] := by
  unfold fractionPart
  split
  · exact absurd rfl (h '.' rfl).2.1
  · rfl

theorem EndsNumber.exponentPart_eq (h : EndsNumber s) : exponentPart s = [] := by
  have hmark : ∀ c ∈ s.head?, (c == 'e' || c == 'E') = false := fun c hc => by
    simp [(h c hc).2.2]
  unfold exponentPart
  split
  case h_4 => rfl
  all_goals simp [hmark _ rfl]

theorem signPart_of_isDigit (h : c.isDigit) : signPart (c :: s) = [] := by
  unfold signPart
  split
  · next heq =>
    obtain ⟨rfl, -⟩ := List.cons.inj heq
    cases h
  · rfl

theorem readNumber_toDigits (h : EndsNumber rest) (n : Nat) :
    readNumber (Nat.toDigits 10 n ++ rest) = some (.int n, rest) := by
  obtain ⟨d, digits, hcons, hd⟩ := exists_toDigits_eq_cons n
  have hsign : signPart (Nat.toDigits 10 n ++ rest) = [] := by
    rw [hcons, List.cons_append, signPart_of_isDigit hd]
  simp [readNumber, hsign, wholePart_toDigits h, h.fractionPart_eq, h.exponentPart_eq,
    natOfDigits_toDigits, Nat.toDigits_ne_nil]

theorem readNumber_neg_toDigits (h : EndsNumber rest) {n : Nat} (hn : n ≠ 0) :
    readNumber ('-' :: (Nat.toDigits 10 n ++ rest)) = some (.int (-n), rest) := by
  have hzero : Nat.toDigits 10 n ≠ ['0'] := by
    intro heq
    exact hn (by rw [← natOfDigits_toDigits n, heq]; rfl)
  simp [readNumber, signPart, wholePart_toDigits h, h.fractionPart_eq, h.exponentPart_eq,
    natOfDigits_toDigits, Nat.toDigits_ne_nil, hzero]

theorem read?_eq_readNumber (h : c.isDigit ∨ c = '-') :
    read? (c :: s) = (readNumber (c :: s)).map fun p => (.scalar p.1, p.2) := by
  unfold read?
  split
  case h_1 heq => cases heq
  case h_12 => rfl
  all_goals
    next heq =>
    obtain ⟨rfl, -⟩ := List.cons.inj heq
    exact absurd h (by decide)

theorem read?_int (h : EndsNumber rest) (v : Int) :
    read? ((toString v).toList ++ rest) = some (.scalar (.int v), rest) := by
  cases v with
  | ofNat n =>
    obtain ⟨d, digits, hcons, hd⟩ := exists_toDigits_eq_cons n
    have hlist : (toString (Int.ofNat n)).toList = Nat.toDigits 10 n := Nat.toList_repr
    have hread := readNumber_toDigits h n
    rw [hcons, List.cons_append] at hread
    rw [hlist, hcons, List.cons_append, read?_eq_readNumber (.inl hd), hread]
    rfl
  | negSucc n =>
    have hlist : (toString (Int.negSucc n)).toList = '-' :: Nat.toDigits 10 (n + 1) := by
      rw [Int.toString_eq_repr, Int.repr, String.toList_append, Nat.toList_repr]
      rfl
    rw [hlist, List.cons_append, read?_eq_readNumber (.inr rfl),
      readNumber_neg_toDigits h (Nat.succ_ne_zero n)]
    rfl

/-- A blank starts no token. -/
theorem read?_of_isSpace (h : isSpace c) : read? (c :: s) = none := by
  simp only [isSpace, Bool.or_eq_true, beq_iff_eq] at h
  rcases h with ((rfl | rfl) | rfl) | rfl <;> rfl

end Numbers

end Token

end MaterialGraph.Json
