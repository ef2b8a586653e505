/-!
Lines of a text. A line keeps its line feed, so the lines of a text concatenate
to the text; only the last line may lack one.
-/

namespace MaterialGraph.Text

/-- The first line of a text and what follows it. -/
def cutLine (s : List Char) : List Char × List Char :=
  match s.dropWhile (· != '\n') with
  | [] => (s, [])
  | feed :: rest => (s.takeWhile (· != '\n') ++ [feed], rest)

theorem cutLine_append (s : List Char) : (cutLine s).1 ++ (cutLine s).2 = s := by
  unfold cutLine
  split
  · simp
  · next h =>
    have := List.takeWhile_append_dropWhile (p := (· != '\n')) (l := s)
    rw [h] at this
    simpa using this

theorem cutLine_shorter (c : Char) (s : List Char) :
    (cutLine (c :: s)).2.length < (c :: s).length := by
  have happ := congrArg List.length (cutLine_append (c :: s))
  have hpos : 0 < (cutLine (c :: s)).1.length := by
    unfold cutLine
    split <;> simp
  simp only [List.length_append] at happ
  omega

def lines (s : List Char) : List (List Char) :=
  match s with
  | [] => []
  | c :: rest =>
    (cutLine (c :: rest)).1 :: lines (cutLine (c :: rest)).2
termination_by s.length
decreasing_by exact cutLine_shorter c rest

/-- Splitting loses nothing. -/
theorem flatten_lines (s : List Char) : (lines s).flatten = s := by
  fun_induction lines s with
  | case1 => rfl
  | case2 c rest ih => rw [List.flatten_cons, ih, cutLine_append]

end MaterialGraph.Text
