import MaterialGraph.Assembly.Include
import MaterialGraph.Proofs.Text.Blank

/-!
Include directives by their form: the word that starts them and a name between quotes,
with any blanks before, between and after these. Main statement: a line includes a name
exactly if it has this form.
-/

namespace MaterialGraph.Include

variable {line s rest body : List Char} {name : String}

/-- Whether a line is a directive that includes a name. -/
def Directive (line : List Char) (name : String) : Prop :=
  ∃ lead gap tail, Text.Blank lead ∧ Text.Blank gap ∧ Text.Blank tail ∧
    line = lead ++ ("#include".toList ++ (gap ++ ('"' :: name.toList ++ ['"']))) ++ tail

theorem after?_eq_some_iff {head : List Char} :
    after? head s = some rest ↔ s = head ++ rest := by
  induction head generalizing s with
  | nil => simp [after?]
  | cons h head ih =>
    cases s with
    | nil => simp [after?]
    | cons c s =>
      rw [after?]
      split
      · next heq =>
        subst heq
        rw [ih, List.cons_append, List.cons.injEq, eq_self, true_and]
      · next hne =>
        simp [Ne.symm hne]

theorem unquote?_eq_some_iff : unquote? s = some body ↔ s = '"' :: body ++ ['"'] := by
  constructor
  · intro h
    unfold unquote? at h
    split at h
    · next quoted =>
      split at h
      · next hlast =>
        cases h
        obtain ⟨name, rfl⟩ := List.getLast?_eq_some_iff.1 hlast
        rw [List.dropLast_concat, List.cons_append]
      · cases h
    · cases h
  · rintro rfl
    simp [unquote?]

/-- What a line is taken to include is what its form says. -/
theorem target?_eq_some_iff : target? line = some name ↔ Directive line name := by
  constructor
  · intro h
    unfold target? at h
    split at h
    · cases h
    · next rest hafter =>
      obtain ⟨body, hbody, rfl⟩ := Option.map_eq_some_iff.1 h
      obtain ⟨lead, tail, hlead, htail, hline⟩ := Text.exists_trim line
      obtain ⟨gap, close, hgap, hclose, hrest⟩ := Text.exists_trim rest
      rw [after?_eq_some_iff.1 hafter, hrest, unquote?_eq_some_iff.1 hbody] at hline
      refine ⟨lead, gap, close ++ tail, hlead, hgap, hclose.append htail, ?_⟩
      rw [hline, String.toList_ofList (l := body)]
      simp only [List.append_assoc]
  · rintro ⟨lead, gap, tail, hlead, hgap, htail, rfl⟩
    have hform : "#include".toList ++ (gap ++ ('"' :: name.toList ++ ['"'])) =
        '#' :: ("include".toList ++ (gap ++ '"' :: name.toList)) ++ ['"'] := by simp
    have hline : Text.trim (lead ++ ("#include".toList ++
        (gap ++ ('"' :: name.toList ++ ['"']))) ++ tail) =
          "#include".toList ++ (gap ++ ('"' :: name.toList ++ ['"'])) := by
      rw [hform]
      exact Text.trim_append hlead htail (by decide) (by decide) _
    have hrest : Text.trim (gap ++ ('"' :: name.toList ++ ['"'])) = '"' :: name.toList ++ ['"'] := by
      have htrim := Text.trim_append hgap Text.blank_nil (c := '"') (d := '"') (by decide)
        (by decide) name.toList
      rwa [List.append_nil] at htrim
    rw [target?, hline, after?_eq_some_iff.2 rfl]
    dsimp only
    rw [hrest, unquote?_eq_some_iff.2 rfl, Option.map_some, String.ofList_toList]

theorem directive_unique {other : String} (h : Directive line name) (h' : Directive line other) :
    name = other :=
  Option.some.inj ((target?_eq_some_iff.2 h).symm.trans (target?_eq_some_iff.2 h'))

instance (line : List Char) (name : String) : Decidable (Directive line name) :=
  decidable_of_iff _ target?_eq_some_iff

end MaterialGraph.Include
