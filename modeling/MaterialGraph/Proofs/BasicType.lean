import Mathlib.Tactic.Tauto
import MaterialGraph.BasicType

/-!
Textual tags of types. A tag spells a type if it is the name of the type, up to the case
of ASCII letters, or the name of a scalar with its width 1. Main statement: the tags of a
type are its spellings and, for vectors and samplers as well, the name with a 1 behind it.
-/

namespace MaterialGraph.BasicType

variable {tag : String} {t t' : BasicType}

/-- Whether two texts differ in the case of ASCII letters only. -/
def EqUpToCase (s s' : String) : Prop :=
  foldCase s = foldCase s'

instance (s s' : String) : Decidable (EqUpToCase s s') :=
  inferInstanceAs (Decidable (_ = _))

def IsScalar (t : BasicType) : Prop :=
  t = float ∨ t = half ∨ t = fixed

instance (t : BasicType) : Decidable t.IsScalar :=
  inferInstanceAs (Decidable (_ ∨ _))

def Spells (t : BasicType) (tag : String) : Prop :=
  EqUpToCase tag t.name ∨ t.IsScalar ∧ EqUpToCase tag (t.name ++ "1")

instance (t : BasicType) (tag : String) : Decidable (t.Spells tag) :=
  inferInstanceAs (Decidable (_ ∨ _))

/-- Whether a tag writes the width of a scalar behind the name of a vector or a sampler. -/
def Overspells (t : BasicType) (tag : String) : Prop :=
  ¬t.IsScalar ∧ EqUpToCase tag (t.name ++ "1")

theorem foldCase_append_one (s : String) : foldCase (s ++ "1") = foldCase s ++ ['1'] := by
  rw [foldCase, String.toList_append, List.map_append]
  rfl

theorem foldCase_name_injective (h : foldCase t.name = foldCase t'.name) : t = t' := by
  have hnames : ∀ t ∈ all, ∀ t' ∈ all, foldCase t.name = foldCase t'.name → t = t' := by decide
  exact hnames t (mem_all t) t' (mem_all t') h

theorem getLast?_foldCase_name (t : BasicType) : (foldCase t.name).getLast? ≠ some '1' := by
  cases t <;> decide

/-- Dropping a width undoes writing one. -/
theorem dropUnitWidth_eq_iff {name l : List Char} (hname : name.getLast? ≠ some '1') :
    dropUnitWidth l = name ↔ l = name ∨ l = name ++ ['1'] := by
  unfold dropUnitWidth
  constructor
  · intro h
    split at h
    · next hlast =>
      obtain ⟨front, rfl⟩ := List.getLast?_eq_some_iff.1 hlast
      rw [List.dropLast_concat] at h
      exact .inr (h ▸ rfl)
    · exact .inl h
  · intro h
    rcases h with rfl | rfl
    · rw [if_neg hname]
    · rw [if_pos List.getLast?_concat, List.dropLast_concat]

theorem foldCase_name_of_parse? (h : parse? tag = some t) :
    foldCase t.name = dropUnitWidth (foldCase tag) := by
  have hfound := List.find?_some
    (p := fun t : BasicType => foldCase t.name == dropUnitWidth (foldCase tag)) h
  exact eq_of_beq hfound

theorem parse?_eq_some_iff :
    parse? tag = some t ↔ EqUpToCase tag t.name ∨ EqUpToCase tag (t.name ++ "1") := by
  have hname : EqUpToCase tag t.name ∨ EqUpToCase tag (t.name ++ "1") ↔
      foldCase t.name = dropUnitWidth (foldCase tag) := by
    rw [eq_comm (a := foldCase t.name), dropUnitWidth_eq_iff (getLast?_foldCase_name t),
      ← foldCase_append_one]
    rfl
  rw [hname]
  constructor
  · exact foldCase_name_of_parse?
  · intro h
    have hsome : (parse? tag).isSome := List.find?_isSome.2 ⟨t, mem_all t, beq_iff_eq.2 h⟩
    obtain ⟨t', ht'⟩ := Option.isSome_iff_exists.1 hsome
    rw [ht', foldCase_name_injective ((foldCase_name_of_parse? ht').trans h.symm)]

/-- No name ends in a width 1, so no tag is a spelling and an overspelling. -/
theorem not_spells_of_overspells (h : t.Overspells tag) : ¬t.Spells tag := by
  intro hspells
  rcases hspells with hname | ⟨hscalar, -⟩
  · have hlast := congrArg List.getLast? (hname.symm.trans h.2)
    rw [foldCase_append_one, List.getLast?_concat] at hlast
    exact getLast?_foldCase_name t hlast
  · exact h.1 hscalar

theorem spells_of_ofSpelling? (h : ofSpelling? tag = some t) : t.Spells tag := by
  have hspellings : ∀ t ∈ all, ∀ s ∈ t.spellings, t.Spells s := by decide
  have hmem := List.find?_some (p := fun t : BasicType => t.spellings.contains tag) h
  exact hspellings t (mem_all t) tag (List.contains_iff_mem.1 hmem)

/-- A tag names a type exactly if it spells or overspells it, so the tags of a type are its
spellings but for the overspelled names. A type's declared names are spellings. -/
theorem parse?_exact (tag : String) (t : BasicType) :
    (parse? tag = some t ↔ t.Spells tag ∨ t.Overspells tag) ∧
      ((parse? tag = some t ↔ t.Spells tag) ↔ ¬t.Overspells tag) ∧
      (ofSpelling? tag = some t → t.Spells tag ∧ parse? tag = some t) := by
  have hparse : parse? tag = some t ↔ t.Spells tag ∨ t.Overspells tag := by
    rw [parse?_eq_some_iff, Spells, Overspells]
    tauto
  refine ⟨hparse, ⟨fun hexact hover => ?_, fun hover => ?_⟩, fun hdeclared => ?_⟩
  · exact not_spells_of_overspells hover (hexact.1 (hparse.2 (.inr hover)))
  · rw [hparse, or_iff_left hover]
  · have hspells := spells_of_ofSpelling? hdeclared
    exact ⟨hspells, hparse.2 (.inl hspells)⟩

/-- The type of four numbers has no width 1. -/
theorem parse?_float41 : parse? "float41" = some float4 ∧ ¬float4.Spells "float41" := by
  decide

end MaterialGraph.BasicType
