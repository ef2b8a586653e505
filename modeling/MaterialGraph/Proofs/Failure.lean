import Mathlib.Data.List.Forall2
import MaterialGraph.Failure

/-!
Results that may fail. A sequence succeeds when all of its steps do. When failures
are turned into others, what succeeds stays as it is, and every failure comes from
one before.
-/

/-- Every member of a list is related to a member of the other one. -/
theorem List.Forall₂.exists_mem {α β : Type*} {R : α → β → Prop} {l : List α} {l' : List β}
    (h : List.Forall₂ R l l') : ∀ a ∈ l, ∃ b ∈ l', R a b := by
  induction h with
  | nil => exact fun a ha => absurd ha List.not_mem_nil
  | @cons a b l l' hab _ ih =>
    intro a' ha'
    rcases List.mem_cons.1 ha' with rfl | ha'
    · exact ⟨b, List.mem_cons_self, hab⟩
    · obtain ⟨b', hb', hrel⟩ := ih a' ha'
      exact ⟨b', List.mem_cons_of_mem b hb', hrel⟩

namespace Except

variable {ε ε' α β : Type} {f : ε → ε'} {x : Except ε α}

theorem bind_eq_ok_iff {k : α → Except ε β} {b : β} :
    (x >>= k) = .ok b ↔ ∃ a, x = .ok a ∧ k a = .ok b := by
  cases x with
  | error e => simp [bind, Except.bind]
  | ok a => simp [bind, Except.bind]

/-- What all members of a list give is given member by member. -/
theorem mapM_eq_ok_iff {k : α → Except ε β} {l : List α} {bs : List β} :
    l.mapM k = .ok bs ↔ List.Forall₂ (fun a b => k a = .ok b) l bs := by
  induction l generalizing bs with
  | nil =>
    rw [List.mapM_nil, List.forall₂_nil_left_iff]
    constructor
    · intro h
      cases h
      rfl
    · intro h
      rw [h]
      rfl
  | cons a l ih =>
    rw [List.mapM_cons, List.forall₂_cons_left_iff]
    simp only [bind_eq_ok_iff, ih, pure, Except.pure, Except.ok.injEq]
    constructor
    · intro h
      obtain ⟨b, hb, rest, hrest, heq⟩ := h
      exact ⟨b, rest, hb, hrest, heq.symm⟩
    · intro h
      obtain ⟨b, rest, hb, hrest, heq⟩ := h
      exact ⟨b, hb, rest, hrest, heq.symm⟩

theorem exists_mapM_eq_ok {k : α → Except ε β} {l : List α}
    (h : ∀ a ∈ l, ∃ b, k a = .ok b) : ∃ bs, l.mapM k = .ok bs := by
  simp only [mapM_eq_ok_iff]
  induction l with
  | nil => exact ⟨[], .nil⟩
  | cons a l ih =>
    obtain ⟨b, hb⟩ := h a List.mem_cons_self
    obtain ⟨bs, hbs⟩ := ih fun a' ha' => h a' (List.mem_cons_of_mem a ha')
    exact ⟨b :: bs, .cons hb hbs⟩

theorem mapError_eq_ok_iff {a : α} : x.mapError f = .ok a ↔ x = .ok a := by
  cases x with
  | error e => exact ⟨fun h => (by cases h), fun h => (by cases h)⟩
  | ok b =>
    constructor
    · intro h
      cases h
      rfl
    · intro h
      cases h
      rfl

theorem mapError_eq_error_iff {e' : ε'} :
    x.mapError f = .error e' ↔ ∃ e, x = .error e ∧ f e = e' := by
  cases x with
  | error e =>
    constructor
    · intro h
      cases h
      exact ⟨e, rfl, rfl⟩
    · rintro ⟨_, h, rfl⟩
      cases h
      rfl
  | ok b =>
    constructor
    · intro h
      cases h
    · rintro ⟨_, h, _⟩
      cases h

end Except

namespace MaterialGraph.Outcome

variable {α : Type} {activity : String} {r : Outcome α}

theorem during_eq_ok_iff {a : α} : r.during activity = .ok a ↔ r = .ok a :=
  Except.mapError_eq_ok_iff

theorem ofOption_eq_ok_iff {f : Failure} {o : Option α} {a : α} :
    ofOption f o = .ok a ↔ o = some a := by
  cases o <;> simp [ofOption]

/-- A failure during an activity keeps its cause. -/
theorem during_eq_error {f : Failure} (h : r.during activity = .error f) :
    ∃ g, r = .error g ∧ g.cause = f.cause := by
  obtain ⟨g, hg, rfl⟩ := Except.mapError_eq_error_iff.1 h
  exact ⟨g, hg, rfl⟩

end MaterialGraph.Outcome
