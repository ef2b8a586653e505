import Mathlib.Data.List.TakeWhile
import MaterialGraph.Text.Line

/-!
Lines of texts that follow one another. A text is closed if what follows it starts on a
line of its own. Main statements: the lines of a closed text and of what follows it are
the lines of both, and every line but the last one is closed.
-/

namespace MaterialGraph.Text

variable {s t line : List Char}

/-- Whether what follows a text starts on a new line. -/
def Closed (s : List Char) : Prop :=
  s = [] ∨ s.getLast? = some '\n'

instance (s : List Char) : Decidable (Closed s) :=
  inferInstanceAs (Decidable (_ ∨ _))

theorem Closed.append (hs : Closed s) (ht : Closed t) : Closed (s ++ t) := by
  rcases ht with rfl | ht
  · rwa [List.append_nil]
  · rw [Closed, List.getLast?_append, ht]
    exact .inr rfl

theorem closed_append_feed (s : List Char) : Closed (s ++ ['\n']) :=
  .inr List.getLast?_concat

theorem closed_flatten {l : List (List Char)} (h : ∀ s ∈ l, Closed s) : Closed l.flatten := by
  induction l with
  | nil => exact .inl rfl
  | cons s rest ih =>
    rw [List.forall_mem_cons] at h
    exact h.1.append (ih h.2)

/-- What follows a line feed in a closed text is closed. -/
theorem Closed.of_append_cons (h : Closed (s ++ '\n' :: t)) : Closed t := by
  rcases h with h | h
  · cases (List.append_eq_nil_iff.1 h).2
  · cases t with
    | nil => exact .inl rfl
    | cons c t => simpa [Closed] using h

section Lines

theorem lines_nil : lines [] = [] := by
  rw [lines]

theorem lines_of_notMem (hs : s ≠ []) (h : '\n' ∉ s) : lines s = [s] := by
  have hdrop : s.dropWhile (· != '\n') = [] :=
    List.dropWhile_eq_nil_iff.2 fun c hc => bne_iff_ne.2 fun heq => h (heq ▸ hc)
  obtain ⟨c, rest, rfl⟩ := List.exists_cons_of_ne_nil hs
  rw [lines, cutLine, hdrop, lines_nil]

theorem cutLine_append_cons (h : '\n' ∉ s) (t : List Char) :
    cutLine (s ++ '\n' :: t) = (s ++ ['\n'], t) := by
  have hpass : ∀ c ∈ s, (c != '\n') = true := fun c hc => bne_iff_ne.2 fun heq => h (heq ▸ hc)
  simp [cutLine, List.dropWhile_append_of_pos hpass, List.takeWhile_append_of_pos hpass]

theorem lines_append_cons (h : '\n' ∉ s) (t : List Char) :
    lines (s ++ '\n' :: t) = (s ++ ['\n']) :: lines t := by
  have hcut := cutLine_append_cons h t
  obtain ⟨c, rest, heq⟩ := List.exists_cons_of_ne_nil (List.append_ne_nil_of_right_ne_nil s
    (List.cons_ne_nil '\n' t))
  rw [heq] at hcut ⊢
  rw [lines, hcut]

/-- A text is empty, has a single line that is not ended, or a line before a text. -/
@[elab_as_elim]
theorem line_induction {motive : List Char → Prop} (nil : motive [])
    (last : ∀ s, s ≠ [] → '\n' ∉ s → motive s)
    (feed : ∀ s t, '\n' ∉ s → motive t → motive (s ++ '\n' :: t)) (s : List Char) : motive s := by
  induction s using lines.induct with
  | case1 => exact nil
  | case2 c rest ih =>
    by_cases hfeed : '\n' ∈ c :: rest
    · obtain ⟨front, after, heq, hfront⟩ := List.eq_append_cons_of_mem hfeed
      rw [heq, cutLine_append_cons hfront] at ih
      rw [heq]
      exact feed front after hfront ih
    · exact last _ (List.cons_ne_nil c rest) hfeed

theorem lines_append (h : Closed s) (t : List Char) : lines (s ++ t) = lines s ++ lines t := by
  induction s using line_induction with
  | nil => rw [lines_nil, List.nil_append, List.nil_append]
  | last s hs hfeed =>
    rcases h with h | h
    · exact absurd h hs
    · exact absurd (List.mem_of_getLast? h) hfeed
  | feed s rest hfeed ih =>
    rw [List.append_assoc, List.cons_append, lines_append_cons hfeed, lines_append_cons hfeed,
      ih h.of_append_cons, List.cons_append]

/-- Whether a text is a single line that is ended. -/
def IsLine (s : List Char) : Prop :=
  ∃ t, '\n' ∉ t ∧ s = t ++ ['\n']

/-- Lines one after another are the lines of the text that they make up. -/
theorem lines_flatten {l : List (List Char)} (h : ∀ s ∈ l, IsLine s) : lines l.flatten = l := by
  induction l with
  | nil => exact lines_nil
  | cons s rest ih =>
    obtain ⟨⟨t, ht, rfl⟩, hrest⟩ := List.forall_mem_cons.1 h
    rw [List.flatten_cons, List.append_assoc, List.singleton_append, lines_append_cons ht,
      ih hrest]

theorem lines_of_mem (h : line ∈ lines s) : lines line = [line] := by
  induction s using line_induction with
  | nil =>
    rw [lines_nil] at h
    cases h
  | last s hs hfeed =>
    have hline := lines_of_notMem hs hfeed
    rw [hline, List.mem_singleton] at h
    rwa [h]
  | feed s rest hfeed ih =>
    rw [lines_append_cons hfeed] at h
    rcases List.mem_cons.1 h with rfl | h
    · rw [lines_append_cons hfeed, lines_nil]
    · exact ih h

/-- A line that another one follows is closed. -/
theorem closed_of_followed (s : List Char) : (lines s).Pairwise fun line _ => Closed line := by
  induction s using line_induction with
  | nil =>
    rw [lines_nil]
    exact .nil
  | last s hs hfeed =>
    rw [lines_of_notMem hs hfeed]
    exact List.pairwise_singleton ..
  | feed s rest hfeed ih =>
    rw [lines_append_cons hfeed]
    exact ih.cons fun _ _ => closed_append_feed s

theorem closed_of_mem_lines (hs : Closed s) (h : line ∈ lines s) : Closed line := by
  induction s using line_induction with
  | nil =>
    rw [lines_nil] at h
    cases h
  | last s hne hfeed =>
    rw [lines_of_notMem hne hfeed, List.mem_singleton] at h
    rwa [h]
  | feed s rest hfeed ih =>
    rw [lines_append_cons hfeed] at h
    rcases List.mem_cons.1 h with rfl | h
    · exact closed_append_feed s
    · exact ih hs.of_append_cons h

/-- A line of a text stands at the beginning of a line. -/
theorem exists_of_mem_lines (h : line ∈ lines s) :
    ∃ head tail, s = head ++ line ++ tail ∧ Closed head := by
  obtain ⟨before, after, hsplit⟩ := List.append_of_mem h
  refine ⟨before.flatten, after.flatten, ?_, closed_flatten fun other hother => ?_⟩
  · rw [← flatten_lines s, hsplit]
    simp
  · have hfollowed := closed_of_followed s
    rw [hsplit] at hfollowed
    exact (List.pairwise_append.1 hfollowed).2.2 other hother line List.mem_cons_self

end Lines

end MaterialGraph.Text
