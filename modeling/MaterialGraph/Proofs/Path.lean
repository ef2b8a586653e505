import MaterialGraph.Path

/-!
The last part of a path. Joining a name to a directory keeps the last part of
the name, and text without a slash at the end of a name ends that part.
-/

namespace MaterialGraph.Path

variable {dir name suffix : String}

/-- What follows the last slash of a path, or all of it. -/
def lastPart (p : String) : String :=
  String.ofList (((p.toList.splitOn '/').getLast?).getD [])

theorem splitOn_ne_nil (s : List Char) : s.splitOn '/' ≠ [] := by
  rw [List.splitOn_eq_splitOnP]
  exact List.splitOnP_ne_nil _ _

theorem getLast?_splitOn (s : List Char) :
    (s.splitOn '/').getLast? = some (((s.splitOn '/').getLast?).getD []) := by
  rw [List.getLast?_eq_some_getLast (splitOn_ne_nil s)]
  rfl

theorem getLast?_splitOn_append (s r : List Char) :
    ((s ++ '/' :: r).splitOn '/').getLast? = (r.splitOn '/').getLast? := by
  rw [List.splitOn_append_cons_self, List.getLast?_append, getLast?_splitOn r]
  rfl

theorem exists_lastSlash {s : List Char} (h : '/' ∈ s) :
    ∃ front back, s = front ++ '/' :: back ∧ '/' ∉ back := by
  obtain ⟨back, front, hs, hback⟩ := List.eq_append_cons_of_mem (List.mem_reverse.2 h)
  refine ⟨front.reverse, back.reverse, ?_, fun hmem => hback (List.mem_reverse.1 hmem)⟩
  rw [← List.reverse_reverse s, hs]
  simp

theorem lastPart_append (h : '/' ∉ suffix.toList) :
    lastPart (name ++ suffix) = lastPart name ++ suffix := by
  apply String.toList_injective
  simp only [lastPart, String.toList_append, String.toList_ofList]
  by_cases hname : '/' ∈ name.toList
  · obtain ⟨front, back, hsplit, hback⟩ := exists_lastSlash hname
    have hlong : '/' ∉ back ++ suffix.toList := by
      rw [List.mem_append, not_or]
      exact ⟨hback, h⟩
    rw [hsplit, List.append_assoc, List.cons_append, getLast?_splitOn_append,
      getLast?_splitOn_append, List.splitOn_eq_singleton hback, List.splitOn_eq_singleton hlong]
    rfl
  · have hlong : '/' ∉ name.toList ++ suffix.toList := by
      rw [List.mem_append, not_or]
      exact ⟨hname, h⟩
    rw [List.splitOn_eq_singleton hname, List.splitOn_eq_singleton hlong]
    rfl

theorem lastPart_below (front : String) (h : front.toList.getLast? = some '/') :
    lastPart (front ++ name) = lastPart name := by
  obtain ⟨outer, houter⟩ := List.getLast?_eq_some_iff.1 h
  rw [lastPart, String.toList_append, houter, List.append_assoc, List.singleton_append,
    getLast?_splitOn_append, lastPart]

theorem lastPart_join (dir name : String) : lastPart (join dir name) = lastPart name := by
  unfold join
  split
  · next h =>
    split
    · rfl
    · next habsolute =>
      simp only [Bool.or_eq_true, habsolute, false_or, Bool.false_eq_true, beq_iff_eq] at h
      rcases h with hempty | hslash
      · rw [String.isEmpty_iff.1 hempty, String.empty_append]
      · exact lastPart_below dir hslash
  · refine lastPart_below (dir ++ "/") ?_
    simp

theorem getLast?_parts (p : String) : (parts p).getLast? = some (lastPart p) := by
  have hall : ((p.toList.splitOn '/').map String.ofList).getLast? = some (lastPart p) := by
    rw [List.getLast?_map, getLast?_splitOn]
    rfl
  simp only [parts]
  split
  · next habsolute =>
    -- The part before the first slash of an absolute path is empty and not the last.
    obtain ⟨rest, hp⟩ : ∃ rest, p.toList = '/' :: rest := by
      simp only [isAbsolute, beq_iff_eq] at habsolute
      exact List.head?_eq_some_iff.1 habsolute
    have hsplit : p.toList.splitOn '/' = [] :: rest.splitOn '/' := by
      rw [hp]
      exact List.splitOn_append_cons_self [] rest
    rw [hsplit] at hall ⊢
    rw [List.map_cons, List.getLast?_cons_of_ne_nil (by simp [splitOn_ne_nil rest])] at hall
    exact hall
  · exact hall

end MaterialGraph.Path
