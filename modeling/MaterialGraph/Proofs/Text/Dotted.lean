import Mathlib.Data.List.Basic
import MaterialGraph.Proofs.Text.Number

/-!
Texts with words behind dots. The words can be read off such a text from its end, whatever
dots the text in front of them has.
-/

namespace MaterialGraph.Text

/-- Letters and digits make up a word. -/
def isWord (s : String) : Bool :=
  s.toList.all Char.isAlphanum

theorem notMem_of_isWord {s : String} {c : Char} (h : isWord s) (hc : c.isAlphanum = false) :
    c ∉ s.toList := fun hmem =>
  Bool.eq_false_iff.1 hc (List.all_eq_true.1 h c hmem)

theorem isWord_append {s t : String} : isWord (s ++ t) ↔ isWord s ∧ isWord t := by
  simp [isWord, List.all_append]

theorem isWord_toString (k : Nat) : isWord (toString k) := by
  refine List.all_eq_true.2 fun c hc => ?_
  simp [Char.isAlphanum, isDigit_of_mem_toString hc]

/-- A text with further parts, each behind a dot. -/
def dotted (front : String) (parts : List String) : String :=
  parts.foldl (fun front part => front ++ "." ++ part) front

variable {front front' : String} {words words' : List String}

theorem splitOn_dotted (front : String) (h : ∀ word ∈ words, isWord word) :
    (dotted front words).toList.splitOn '.' =
      front.toList.splitOn '.' ++ words.map String.toList := by
  induction words generalizing front with
  | nil => exact (List.append_nil _).symm
  | cons word rest ih =>
    obtain ⟨hword, hrest⟩ := List.forall_mem_cons.1 h
    have hdot : ".".toList = ['.'] := rfl
    have hsplit : (front ++ "." ++ word).toList.splitOn '.' =
        front.toList.splitOn '.' ++ [word.toList] := by
      rw [String.toList_append, String.toList_append, hdot, List.append_assoc,
        List.singleton_append, List.splitOn_append_cons_self,
        List.splitOn_eq_singleton (notMem_of_isWord hword rfl)]
    calc
      (dotted front (word :: rest)).toList.splitOn '.'
        = (dotted (front ++ "." ++ word) rest).toList.splitOn '.' := rfl
      _ = (front ++ "." ++ word).toList.splitOn '.' ++ rest.map String.toList := ih _ hrest
      _ = front.toList.splitOn '.' ++ (word :: rest).map String.toList := by
        rw [hsplit, List.append_assoc, List.singleton_append, List.map_cons]

theorem notMem_dotted {c : Char} (hc : c.isAlphanum = false) (hdot : c ≠ '.')
    (hfront : c ∉ front.toList) (h : ∀ word ∈ words, isWord word) :
    c ∉ (dotted front words).toList := by
  induction words generalizing front with
  | nil => exact hfront
  | cons word rest ih =>
    obtain ⟨hword, hrest⟩ := List.forall_mem_cons.1 h
    refine ih ?_ hrest
    rw [String.toList_append, String.toList_append, List.mem_append, List.mem_append, not_or,
      not_or]
    exact ⟨⟨hfront, List.mem_singleton.not.2 hdot⟩, notMem_of_isWord hword hc⟩

theorem splitOn_eq_of_dotted (h : ∀ word ∈ words, isWord word) (h' : ∀ word ∈ words', isWord word)
    (heq : dotted front words = dotted front' words') :
    front.toList.splitOn '.' ++ words.map String.toList =
      front'.toList.splitOn '.' ++ words'.map String.toList := by
  rw [← splitOn_dotted front h, heq, splitOn_dotted front' h']

theorem map_toList_inj : words.map String.toList = words'.map String.toList ↔ words = words' :=
  (List.map_injective_iff.2 fun _ _ => String.toList_injective).eq_iff

/-- Texts with equally many words agree only with the same words behind the same text. -/
theorem dotted_inj (h : ∀ word ∈ words, isWord word) (h' : ∀ word ∈ words', isWord word)
    (hlength : words.length = words'.length) :
    dotted front words = dotted front' words' ↔ front = front' ∧ words = words' := by
  refine ⟨fun heq => ?_, fun ⟨hfront, hwords⟩ => by rw [hfront, hwords]⟩
  obtain ⟨hfronts, hlasts⟩ :=
    List.append_inj' (splitOn_eq_of_dotted h h' heq) (by simpa using hlength)
  refine ⟨String.toList_injective ?_, map_toList_inj.1 hlasts⟩
  calc
    front.toList = ['.'].intercalate (front.toList.splitOn '.') :=
      (List.intercalate_splitOn '.').symm
    _ = ['.'].intercalate (front'.toList.splitOn '.') := by rw [hfronts]
    _ = front'.toList := List.intercalate_splitOn '.'

/-- Behind one text the words are known without their number. -/
theorem dotted_right_inj (h : ∀ word ∈ words, isWord word) (h' : ∀ word ∈ words', isWord word) :
    dotted front words = dotted front words' ↔ words = words' :=
  ⟨fun heq => map_toList_inj.1 (List.append_cancel_left (splitOn_eq_of_dotted h h' heq)),
    congrArg (dotted front)⟩

end MaterialGraph.Text
