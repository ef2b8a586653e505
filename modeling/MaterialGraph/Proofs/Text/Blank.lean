import Mathlib.Data.List.TakeWhile
import MaterialGraph.Text.Blank

/-!
Trimming. Main statements: a text is its trimmed one between blanks, and a text that
neither starts nor ends with a blank is what is left when blanks around it are trimmed.
-/

namespace MaterialGraph.Text

variable {s t : List Char}

def Blank (s : List Char) : Prop :=
  ∀ c ∈ s, isBlank c = true

theorem blank_nil : Blank [] :=
  List.forall_mem_nil _

theorem Blank.append (hs : Blank s) (ht : Blank t) : Blank (s ++ t) :=
  List.forall_mem_append.2 ⟨hs, ht⟩

theorem Blank.reverse (hs : Blank s) : Blank s.reverse :=
  fun c hc => hs c (List.mem_reverse.1 hc)

theorem trimEnd_eq (s : List Char) : trimEnd s = (trimStart s.reverse).reverse := rfl

theorem exists_trimStart (s : List Char) : ∃ lead, Blank lead ∧ s = lead ++ trimStart s :=
  ⟨s.takeWhile isBlank, fun _ hc => List.mem_takeWhile_imp hc,
    (List.takeWhile_append_dropWhile ..).symm⟩

theorem exists_trimEnd (s : List Char) : ∃ tail, Blank tail ∧ s = trimEnd s ++ tail := by
  obtain ⟨lead, hlead, heq⟩ := exists_trimStart s.reverse
  refine ⟨lead.reverse, hlead.reverse, ?_⟩
  rw [trimEnd_eq, ← List.reverse_append, ← heq, List.reverse_reverse]

theorem exists_trim (s : List Char) :
    ∃ lead tail, Blank lead ∧ Blank tail ∧ s = lead ++ trim s ++ tail := by
  obtain ⟨lead, hlead, hstart⟩ := exists_trimStart s
  obtain ⟨tail, htail, hend⟩ := exists_trimEnd (trimStart s)
  refine ⟨lead, tail, hlead, htail, ?_⟩
  rw [List.append_assoc, trim, ← hend, ← hstart]

theorem trimStart_append (hs : Blank s) (t : List Char) : trimStart (s ++ t) = trimStart t :=
  List.dropWhile_append_of_pos hs

theorem trimEnd_append (ht : Blank t) (s : List Char) : trimEnd (s ++ t) = trimEnd s := by
  rw [trimEnd_eq, List.reverse_append, trimStart_append ht.reverse, ← trimEnd_eq]

theorem trimStart_cons {c : Char} (h : isBlank c = false) (s : List Char) :
    trimStart (c :: s) = c :: s :=
  List.dropWhile_cons_of_neg (Bool.eq_false_iff.1 h)

theorem trimEnd_append_singleton {c : Char} (h : isBlank c = false) (s : List Char) :
    trimEnd (s ++ [c]) = s ++ [c] := by
  rw [trimEnd_eq, List.reverse_append, List.reverse_singleton, List.singleton_append,
    trimStart_cons h, List.reverse_cons, List.reverse_reverse]

/-- Blanks around a text are trimmed up to its first and its last character. -/
theorem trim_append {lead tail : List Char} {c d : Char} (hlead : Blank lead) (htail : Blank tail)
    (hc : isBlank c = false) (hd : isBlank d = false) (s : List Char) :
    trim (lead ++ (c :: s ++ [d]) ++ tail) = c :: s ++ [d] := by
  rw [trim, List.append_assoc, trimStart_append hlead, List.cons_append, List.cons_append,
    trimStart_cons hc, ← List.cons_append, trimEnd_append htail, ← List.cons_append,
    trimEnd_append_singleton hd]

end MaterialGraph.Text
