import MaterialGraph.Proofs.Failure
import MaterialGraph.Registry

/-!
What a registry has for a name. Loading a type answers as the registry and the
resolver together say, and leaves what they say about every name as it was.
-/

namespace MaterialGraph

namespace Loading

theorem run_get (r : Registry) : (get : Loading Registry).run r = (.ok r, r) := rfl

section Steps

-- The steps are the same over any state.
variable {σ α β : Type} {x : ExceptT Failure (StateM σ) α} {f : α → ExceptT Failure (StateM σ) β}
  {r r' : σ}

theorem run_bind_of_ok {a : α} (h : x.run r = (.ok a, r')) : (x >>= f).run r = (f a).run r' := by
  simp only [ExceptT.run, bind, ExceptT.bind, ExceptT.mk, StateT.bind] at h ⊢
  rw [h]
  rfl

theorem run_bind_of_error {e : Failure} (h : x.run r = (.error e, r')) :
    (x >>= f).run r = (.error e, r') := by
  simp only [ExceptT.run, bind, ExceptT.bind, ExceptT.mk, StateT.bind] at h ⊢
  rw [h]
  rfl

/-- What succeeds as a whole succeeds step by step. -/
theorem run_bind_eq_ok {b : β} (h : (x >>= f).run r = (.ok b, r')) :
    ∃ a r₁, x.run r = (.ok a, r₁) ∧ (f a).run r₁ = (.ok b, r') := by
  cases hx : x.run r with
  | mk answer r₁ =>
    cases answer with
    | error e =>
      rw [run_bind_of_error hx] at h
      cases h
    | ok a =>
      rw [run_bind_of_ok hx] at h
      exact ⟨a, r₁, rfl, h⟩

end Steps

theorem run_during {α : Type} (activity : String) (x : Loading α) (r : Registry) :
    (during activity x).run r = (Outcome.during activity (x.run r).1, (x.run r).2) := rfl

end Loading

namespace Registry

variable {resolver : Resolver} {r : Registry} {name other : String} {type : NodeType}

/-- The type of a name: the one in the registry, otherwise the one described. -/
def find (resolver : Resolver) (r : Registry) (name : String) : Outcome NodeType :=
  match r.get? name with
  | some type => .ok type
  | none => fetch resolver name

theorem parse_eq_ok {text : String} (h : NodeType.parse name text = .ok type) :
    ∃ d : NodeType.Description, d.check name = .ok type := by
  unfold NodeType.parse at h
  split at h
  · cases h
  · next d _ => exact ⟨d, Except.mapError_eq_ok_iff.1 h⟩

theorem name_of_parse {text : String} (h : NodeType.parse name text = .ok type) :
    type.name = name := by
  obtain ⟨d, hd⟩ := parse_eq_ok h
  unfold NodeType.Description.check at hd
  split at hd
  · cases hd
  · simp only at hd
    split at hd
    · cases hd
      rfl
    · cases hd

theorem parse_eq_error {text : String} {e : CompileError}
    (h : NodeType.parse name text = .error e) : ∃ fault, e = .malformedNodeType name fault := by
  unfold NodeType.parse at h
  split at h
  · exact ⟨.notJson, (Except.error.inj h).symm⟩
  · obtain ⟨fault, -, rfl⟩ := Except.mapError_eq_error_iff.1 h
    exact ⟨fault, rfl⟩

theorem fetch_eq_ok (h : fetch resolver name = .ok type) :
    ∃ text, resolver.resolve .nodeType name = .ok (some text) ∧
      NodeType.parse name text = .ok type := by
  unfold fetch at h
  cases hresolve : resolver.resolve .nodeType name with
  | error f =>
    rw [hresolve] at h
    cases h
  | ok text? =>
    rw [hresolve] at h
    cases text? with
    | none => cases h
    | some text =>
      exact ⟨text, rfl, Except.mapError_eq_ok_iff.1 (Outcome.during_eq_ok_iff.1 h)⟩

/-- Reading a description fails as the resolver does, because there is none, or
because of what it says. -/
theorem fetch_eq_error {f : Failure} (h : fetch resolver name = .error f) :
    resolver.resolve .nodeType name = .error f ∨
      f.cause = .compile (.unknownNodeType name (resolver.place .nodeType name)) ∨
      ∃ fault, f.cause = .compile (.malformedNodeType name fault) := by
  unfold fetch at h
  cases hresolve : resolver.resolve .nodeType name with
  | error g =>
    rw [hresolve] at h
    cases h
    exact .inl rfl
  | ok text? =>
    rw [hresolve] at h
    cases text? with
    | none =>
      cases h
      exact .inr (.inl rfl)
    | some text =>
      obtain ⟨g, hg, hcause⟩ := Outcome.during_eq_error h
      obtain ⟨e, he, rfl⟩ := Except.mapError_eq_error_iff.1 hg
      obtain ⟨fault, rfl⟩ := parse_eq_error he
      exact .inr (.inr ⟨fault, hcause.symm⟩)

theorem name_of_fetch (h : fetch resolver name = .ok type) : type.name = name := by
  obtain ⟨text, -, hparse⟩ := fetch_eq_ok h
  exact name_of_parse hparse

/-- Registries as they come about: types are put into them under their own names. -/
inductive Built : Registry → Prop
  | empty : Built .empty
  | put {r : Registry} (h : Built r) (type : NodeType) : Built (r.put type)

theorem Built.name_of_get? (h : r.Built) (hget : r.get? name = some type) : type.name = name := by
  induction h with
  | empty => cases hget
  | put _ other ih =>
    rw [Registry.put, Table.get?_insert] at hget
    split at hget
    · next heq =>
      cases hget
      exact heq.symm
    · exact ih hget

/-- In such registries types are found under their own names. -/
theorem Built.name_of_find (h : r.Built) (hfind : find resolver r name = .ok type) :
    type.name = name := by
  unfold find at hfind
  cases hget : r.get? name with
  | some kept =>
    rw [hget] at hfind
    cases hfind
    exact h.name_of_get? hget
  | none =>
    rw [hget] at hfind
    exact name_of_fetch hfind

/-- Keeping a type that was described changes nothing about any name. -/
theorem find_put (hnone : r.get? name = none) (h : fetch resolver name = .ok type)
    (other : String) : find resolver (r.put type) other = find resolver r other := by
  rw [find, find, put, Table.get?_insert, name_of_fetch h]
  by_cases heq : other = name
  · subst heq
    simp [hnone, h]
  · rw [if_neg heq]

theorem run_load_of_get? (h : r.get? name = some type) :
    (load resolver name).run r = (.ok type, r) := by
  rw [load, Loading.run_bind_of_ok (Loading.run_get r), h]
  rfl

theorem run_load_of_none (h : r.get? name = none) :
    (load resolver name).run r = match fetch resolver name with
      | .ok type => (.ok type, r.put type)
      | .error f => (.error f, r) := by
  rw [load, Loading.run_bind_of_ok (Loading.run_get r), h]
  cases hfetch : fetch resolver name with
  | error f => rfl
  | ok type => rfl

/-- Loading a type puts it where types are put. -/
theorem Built.run_load (h : r.Built) (resolver : Resolver) (name : String) :
    Built ((load resolver name).run r).2 := by
  cases hget : r.get? name with
  | some type =>
    rw [run_load_of_get? hget]
    exact h
  | none =>
    rw [run_load_of_none hget]
    cases fetch resolver name with
    | error f => exact h
    | ok type => exact h.put type

/-- Loading answers what is found, and keeps what is found for every name. -/
theorem run_load (resolver : Resolver) (name : String) (r : Registry) :
    ∃ r', (load resolver name).run r = (find resolver r name, r') ∧
      find resolver r' = find resolver r := by
  cases hget : r.get? name with
  | some type => exact ⟨r, by rw [run_load_of_get? hget, find, hget], rfl⟩
  | none =>
    have hfind : find resolver r name = fetch resolver name := by rw [find, hget]
    rw [run_load_of_none hget, hfind]
    cases hfetch : fetch resolver name with
    | error f => exact ⟨r, rfl, rfl⟩
    | ok type => exact ⟨r.put type, rfl, funext (find_put hget hfetch)⟩

end Registry

end MaterialGraph
