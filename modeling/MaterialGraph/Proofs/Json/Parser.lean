import MaterialGraph.Json.Parser
import MaterialGraph.Proofs.Json.Token

/-!
Reading back what was printed. Main statement: a value is the value of its printed text,
unless printing loses a part of it. The reader keeps open values on a stack, so what is shown
of a value is that its text, wherever a value may stand and whatever is open around it,
delivers that value to the stack and leaves the rest.
-/

namespace MaterialGraph.Json

/-- Whether a value has nothing in it that printing may lose: a real number, whose literal
can be any text, or an unreadable text, which is printed as an empty one. -/
inductive Writable : Json → Prop
  | null : Writable .null
  | bool (b : Bool) : Writable (.bool b)
  | int (v : Int) : Writable (.int v)
  | text (t : String) : Writable (.text (some t))
  | array {items : List Json} (hitems : ∀ v ∈ items, Writable v) : Writable (.array items)
  | object {members : List (Option String × Json)} (hkeys : ∀ m ∈ members, m.1.isSome)
      (hvalues : ∀ m ∈ members, Writable m.2) : Writable (.object members)

attribute [simp] Writable.null Writable.bool Writable.int Writable.text

@[simp]
theorem writable_array_iff {items : List Json} :
    Writable (.array items) ↔ ∀ v ∈ items, Writable v := by
  constructor
  · intro h
    cases h with
    | array hitems => exact hitems
  · exact .array

@[simp]
theorem writable_object_iff {members : List (Option String × Json)} :
    Writable (.object members) ↔
      (∀ m ∈ members, m.1.isSome) ∧ ∀ m ∈ members, Writable m.2 := by
  constructor
  · intro h
    cases h with
    | object hkeys hvalues => exact ⟨hkeys, hvalues⟩
  · exact fun h => .object h.1 h.2

section Print

variable {v : Json} {items : List Json} {key : Option String}
  {members : List (Option String × Json)}

theorem print_array_cons :
    print (.array (v :: items)) = '[' :: (print v ++ printItems items) := rfl

theorem printItems_cons : printItems (v :: items) = ',' :: (print v ++ printItems items) := rfl

theorem print_object_cons : print (.object ((key, v) :: members)) =
    '\x7b' :: (printText key ++ ':' :: (print v ++ printMembers members)) := by
  change '\x7b' :: printText key ++ ':' :: print v ++ printMembers members = _
  rw [List.append_assoc, List.cons_append, List.cons_append]

theorem printMembers_cons : printMembers ((key, v) :: members) =
    ',' :: (printText key ++ ':' :: (print v ++ printMembers members)) := by
  change ',' :: printText key ++ ':' :: print v ++ printMembers members = _
  rw [List.append_assoc, List.cons_append, List.cons_append]

end Print

namespace State

variable {st st' : State} {stack : List Frame} {s rest : List Char} {t : Token} {v : Json}

theorem dropWhile_of_read? (hread : Token.read? s = some (t, rest)) :
    s.dropWhile Token.isSpace = s := by
  cases s with
  | nil => rfl
  | cons c s =>
    refine List.dropWhile_cons_of_neg fun hspace => ?_
    rw [Token.read?_of_isSpace hspace] at hread
    cases hread

/-- One token takes the reader one step. -/
theorem resume_of_read? (hread : Token.read? s = some (t, rest)) (hstep : st.step t = some st') :
    st.resume s = st'.resume rest := by
  have hdrop := dropWhile_of_read? hread
  rw [resume]
  split
  · next hnil _ =>
    rw [← hdrop, hnil] at hread
    cases hread
  · next c s' hcons hle =>
    rw [← hdrop, hcons] at hread
    split
    · next hnone => cases hread.symm.trans hnone
    · next t' rest' hsome =>
      cases hread.symm.trans hsome
      rw [hstep]

theorem resume_nil (st : State) : st.resume [] = some st := by
  rw [resume]
  rfl

/-- Whether a value may stand next, to go to a stack. In an array that was just opened the
array may also end. -/
inductive Expects : State → List Frame → Prop
  | value (stack : List Frame) : Expects (value stack) stack
  | firstItem (stack : List Frame) : Expects (firstItem stack) (.array [] :: stack)

theorem Expects.step_eq (h : Expects st stack) (ht : t ≠ .closeArray) :
    st.step t = stepValue stack t := by
  cases h with
  | value => rfl
  | firstItem => rw [step]; exact ht

/-- Whether the text of a value is read as that value, wherever a value may stand. -/
def Delivered (v : Json) : Prop :=
  ∀ {st : State} {stack : List Frame} {rest : List Char}, Expects st stack →
    Token.EndsNumber rest → st.resume (print v ++ rest) = (deliver v stack).resume rest

theorem delivered_scalar (v : Json) (hread : ∀ rest, Token.EndsNumber rest →
    Token.read? (print v ++ rest) = some (.scalar v, rest)) : Delivered v := by
  intro st stack rest hst hrest
  refine resume_of_read? (hread rest hrest) ?_
  rw [hst.step_eq (by simp), stepValue]

section Lists

variable {items done : List Json} {members before : List (Option String × Json)}

theorem endsNumber_printItems (items : List Json) (rest : List Char) :
    Token.EndsNumber (printItems items ++ rest) := by
  cases items <;> (intro c hc; cases hc; decide)

theorem endsNumber_printMembers (members : List (Option String × Json)) (rest : List Char) :
    Token.EndsNumber (printMembers members ++ rest) := by
  cases members <;> (intro c hc; cases hc; decide)

theorem resume_printItems (hitems : ∀ v ∈ items, Delivered v) (rest : List Char) :
    (afterItem done stack).resume (printItems items ++ rest) =
      (deliver (.array (done.reverse ++ items)) stack).resume rest := by
  induction items generalizing done with
  | nil =>
    rw [List.append_nil]
    exact resume_of_read? rfl rfl
  | cons v items ih =>
    rw [List.forall_mem_cons] at hitems
    calc (afterItem done stack).resume (printItems (v :: items) ++ rest)
        = (value (.array done :: stack)).resume (print v ++ (printItems items ++ rest)) := by
          simp only [printItems_cons, List.cons_append, List.append_assoc]
          exact resume_of_read? rfl rfl
      _ = (afterItem (v :: done) stack).resume (printItems items ++ rest) :=
          hitems.1 (.value _) (endsNumber_printItems items rest)
      _ = (deliver (.array (done.reverse ++ v :: items)) stack).resume rest := by
          rw [ih hitems.2, List.reverse_cons, List.append_assoc, List.singleton_append]

theorem resume_key {key : Option String} (hkey : key.isSome)
    (hstep : ∀ key, st.step (.scalar (.text key)) = some (colon before key stack)) (s : List Char) :
    st.resume (printText key ++ ':' :: s) = (value (.object before key :: stack)).resume s := by
  obtain ⟨k, rfl⟩ := Option.isSome_iff_exists.1 hkey
  rw [resume_of_read? (Token.read?_printText k (':' :: s)) (hstep (some k))]
  exact resume_of_read? rfl rfl

theorem resume_printMembers (hkeys : ∀ m ∈ members, m.1.isSome)
    (hvalues : ∀ m ∈ members, Delivered m.2) (rest : List Char) :
    (afterMember before stack).resume (printMembers members ++ rest) =
      (deliver (.object (before.reverse ++ members)) stack).resume rest := by
  induction members generalizing before with
  | nil =>
    rw [List.append_nil]
    exact resume_of_read? rfl rfl
  | cons m members ih =>
    obtain ⟨key, v⟩ := m
    rw [List.forall_mem_cons] at hkeys hvalues
    calc (afterMember before stack).resume (printMembers ((key, v) :: members) ++ rest)
        = (nextKey before stack).resume
            (printText key ++ ':' :: (print v ++ (printMembers members ++ rest))) := by
          simp only [printMembers_cons, List.cons_append, List.append_assoc]
          exact resume_of_read? rfl rfl
      _ = (value (.object before key :: stack)).resume (print v ++ (printMembers members ++ rest)) :=
          resume_key hkeys.1 (fun _ => rfl) _
      _ = (afterMember ((key, v) :: before) stack).resume (printMembers members ++ rest) :=
          hvalues.1 (.value _) (endsNumber_printMembers members rest)
      _ = (deliver (.object (before.reverse ++ (key, v) :: members)) stack).resume rest := by
          rw [ih hkeys.2 hvalues.2, List.reverse_cons, List.append_assoc, List.singleton_append]

theorem delivered_array (hitems : ∀ v ∈ items, Delivered v) : Delivered (.array items) := by
  intro st stack rest hst hrest
  have hopen : st.step .openArray = some (firstItem stack) := hst.step_eq (by simp)
  cases items with
  | nil =>
    calc st.resume (print (.array []) ++ rest)
        = (firstItem stack).resume (']' :: rest) := resume_of_read? rfl hopen
      _ = (deliver (.array []) stack).resume rest := resume_of_read? rfl rfl
  | cons v items =>
    rw [List.forall_mem_cons] at hitems
    calc st.resume (print (.array (v :: items)) ++ rest)
        = (firstItem stack).resume (print v ++ (printItems items ++ rest)) := by
          simp only [print_array_cons, List.cons_append, List.append_assoc]
          exact resume_of_read? rfl hopen
      _ = (afterItem [v] stack).resume (printItems items ++ rest) :=
          hitems.1 (.firstItem _) (endsNumber_printItems items rest)
      _ = (deliver (.array (v :: items)) stack).resume rest := resume_printItems hitems.2 rest

theorem delivered_object (hkeys : ∀ m ∈ members, m.1.isSome)
    (hvalues : ∀ m ∈ members, Delivered m.2) : Delivered (.object members) := by
  intro st stack rest hst hrest
  have hopen : st.step .openObject = some (firstKey stack) := hst.step_eq (by simp)
  cases members with
  | nil =>
    calc st.resume (print (.object []) ++ rest)
        = (firstKey stack).resume ('\x7d' :: rest) := resume_of_read? rfl hopen
      _ = (deliver (.object []) stack).resume rest := resume_of_read? rfl rfl
  | cons m members =>
    obtain ⟨key, v⟩ := m
    rw [List.forall_mem_cons] at hkeys hvalues
    calc st.resume (print (.object ((key, v) :: members)) ++ rest)
        = (firstKey stack).resume
            (printText key ++ ':' :: (print v ++ (printMembers members ++ rest))) := by
          simp only [print_object_cons, List.cons_append, List.append_assoc]
          exact resume_of_read? rfl hopen
      _ = (value (.object [] key :: stack)).resume (print v ++ (printMembers members ++ rest)) :=
          resume_key hkeys.1 (fun _ => rfl) _
      _ = (afterMember [(key, v)] stack).resume (printMembers members ++ rest) :=
          hvalues.1 (.value _) (endsNumber_printMembers members rest)
      _ = (deliver (.object ((key, v) :: members)) stack).resume rest :=
          resume_printMembers hkeys.2 hvalues.2 rest

end Lists

theorem delivered_of_writable (h : Writable v) : Delivered v := by
  induction h with
  | null => exact delivered_scalar .null fun _ _ => rfl
  | bool b => cases b <;> exact delivered_scalar (.bool _) fun _ _ => rfl
  | int v => exact delivered_scalar (.int v) fun _ hrest => Token.read?_int hrest v
  | text t => exact delivered_scalar (.text t) fun rest _ => Token.read?_printText t rest
  | array _ ih => exact delivered_array ih
  | object hkeys _ ih => exact delivered_object hkeys ih

end State

theorem parse?_render {v : Json} (h : Writable v) : parse? v.render = some v := by
  have hend : Token.EndsNumber [] := nofun
  have hresume := State.delivered_of_writable h (.value []) hend
  rw [List.append_nil, State.resume_nil] at hresume
  rw [parse?, render, String.toList_ofList, hresume]
  rfl

end MaterialGraph.Json
