import MaterialGraph.PassGraph.Load
import MaterialGraph.Proofs.Registry

/-!
Activities whose answer does not depend on what a registry was filled with before.
A registry is faithful if each type in it is the one that the resolver describes.
On faithful registries an activity that is transparent always gives the same
answer, and it leaves them faithful; putting activities together keeps both. On any
registry loading leaves the type that is found for each name as it was.
-/

namespace MaterialGraph

/-- Whether every type in a registry is as the resolver describes it. -/
def Registry.Faithful (resolver : Resolver) (r : Registry) : Prop :=
  ∀ name type, r.get? name = some type → Registry.fetch resolver name = .ok type

namespace Registry

variable {resolver : Resolver} {r : Registry} {name : String} {type : NodeType}

theorem Faithful.empty (resolver : Resolver) : Faithful resolver .empty := by
  intro name type h
  cases h

theorem Faithful.put (hr : r.Faithful resolver) (h : fetch resolver name = .ok type) :
    (r.put type).Faithful resolver := by
  intro other type' hother
  rw [Registry.put, Table.get?_insert, name_of_fetch h] at hother
  split at hother
  · next heq =>
    cases hother
    rw [heq, h]
  · exact hr other type' hother

end Registry

namespace Loading

variable {α β : Type} {resolver : Resolver} {x : Loading α} {f : α → Loading β}

/-- Whether an activity has one answer on all faithful registries and keeps them faithful. -/
def Transparent (resolver : Resolver) (x : Loading α) : Prop :=
  ∃ answer, ∀ r : Registry, r.Faithful resolver →
    (x.run r).1 = answer ∧ (x.run r).2.Faithful resolver

theorem transparent_ofOutcome (resolver : Resolver) (answer : Outcome α) :
    Transparent resolver (ofOutcome answer) :=
  ⟨answer, fun _ hr => ⟨rfl, hr⟩⟩

theorem transparent_pure (resolver : Resolver) (a : α) :
    Transparent resolver (pure a : Loading α) :=
  ⟨.ok a, fun _ hr => ⟨rfl, hr⟩⟩

theorem transparent_throw (resolver : Resolver) (f : Failure) :
    Transparent resolver (throw f : Loading α) :=
  ⟨.error f, fun _ hr => ⟨rfl, hr⟩⟩

theorem transparent_bind (hx : Transparent resolver x) (hf : ∀ a, Transparent resolver (f a)) :
    Transparent resolver (x >>= f) := by
  obtain ⟨answer, hx⟩ := hx
  cases answer with
  | error e =>
    refine ⟨.error e, fun r hr => ?_⟩
    obtain ⟨hanswer, hfaithful⟩ := hx r hr
    have hrun : x.run r = (.error e, (x.run r).2) := Prod.ext hanswer rfl
    rw [run_bind_of_error hrun]
    exact ⟨rfl, hfaithful⟩
  | ok a =>
    obtain ⟨answer, hf⟩ := hf a
    refine ⟨answer, fun r hr => ?_⟩
    obtain ⟨hanswer, hfaithful⟩ := hx r hr
    have hrun : x.run r = (.ok a, (x.run r).2) := Prod.ext hanswer rfl
    rw [run_bind_of_ok hrun]
    exact hf _ hfaithful

theorem transparent_during (activity : String) (hx : Transparent resolver x) :
    Transparent resolver (during activity x) := by
  obtain ⟨answer, hx⟩ := hx
  refine ⟨Outcome.during activity answer, fun r hr => ?_⟩
  obtain ⟨hanswer, hfaithful⟩ := hx r hr
  rw [run_during, hanswer]
  exact ⟨rfl, hfaithful⟩

/-- Whether an activity leaves what is found for every name as it was. -/
def Keeps (resolver : Resolver) (x : Loading α) : Prop :=
  ∀ r : Registry, Registry.find resolver (x.run r).2 = Registry.find resolver r

theorem Keeps.find_eq {r r' : Registry} {answer : Outcome α} (hx : Keeps resolver x)
    (h : x.run r = (answer, r')) : Registry.find resolver r' = Registry.find resolver r := by
  have hsame := hx r
  rwa [h] at hsame

theorem keeps_ofOutcome (resolver : Resolver) (answer : Outcome α) :
    Keeps resolver (ofOutcome answer) :=
  fun _ => rfl

theorem keeps_pure (resolver : Resolver) (a : α) : Keeps resolver (pure a : Loading α) :=
  fun _ => rfl

theorem keeps_bind (hx : Keeps resolver x) (hf : ∀ a, Keeps resolver (f a)) :
    Keeps resolver (x >>= f) := by
  intro r
  rcases hrun : x.run r with ⟨answer, r₁⟩
  have hr₁ := hx.find_eq hrun
  cases answer with
  | error e =>
    rw [run_bind_of_error hrun]
    exact hr₁
  | ok a =>
    rw [run_bind_of_ok hrun]
    exact (hf a r₁).trans hr₁

theorem keeps_during (activity : String) (hx : Keeps resolver x) :
    Keeps resolver (during activity x) := by
  intro r
  rw [run_during]
  exact hx r

end Loading

open Loading

variable (resolver : Resolver)

theorem Registry.keeps_load (name : String) : Keeps resolver (Registry.load resolver name) := by
  intro r
  obtain ⟨r', hrun, hsame⟩ := Registry.run_load resolver name r
  rw [hrun]
  exact hsame

theorem PassGraph.keeps_instantiate (shader : String)
    (entries : List (String × Document.WrittenNode)) :
    ∀ g : Graph, Keeps resolver (PassGraph.instantiate resolver shader entries g) := by
  induction entries with
  | nil => exact fun g => keeps_pure resolver g
  | cons e rest ih =>
    intro g
    exact keeps_bind (keeps_during _ (Registry.keeps_load resolver e.2.type)) fun type => ih _

/-- Loading a pass finds the types that were found before. -/
theorem PassGraph.keeps_load (d : Document) (pass : Pass) :
    Keeps resolver (PassGraph.load resolver d pass) := by
  unfold PassGraph.load
  split
  · exact keeps_pure resolver none
  · split
    · exact keeps_pure resolver none
    · refine keeps_bind (keeps_instantiate resolver _ _ _) fun g => ?_
      exact keeps_bind (keeps_ofOutcome resolver _) fun p => keeps_pure resolver (some p)

/-- A type that is kept answers as reading its description again would. -/
theorem Registry.transparent_load (name : String) :
    Transparent resolver (Registry.load resolver name) := by
  refine ⟨fetch resolver name, fun r hr => ?_⟩
  cases hget : r.get? name with
  | some type =>
    rw [run_load_of_get? hget, hr name type hget]
    exact ⟨rfl, hr⟩
  | none =>
    rw [run_load_of_none hget]
    cases hfetch : fetch resolver name with
    | error f => exact ⟨rfl, hr⟩
    | ok type => exact ⟨rfl, hr.put hfetch⟩

theorem PassGraph.transparent_instantiate (shader : String)
    (entries : List (String × Document.WrittenNode)) :
    ∀ g : Graph, Transparent resolver (PassGraph.instantiate resolver shader entries g) := by
  induction entries with
  | nil => exact fun g => transparent_pure resolver g
  | cons e rest ih =>
    intro g
    have hload := Registry.transparent_load resolver e.2.type
    exact transparent_bind (transparent_during _ hload) fun type => ih _

theorem PassGraph.transparent_load (d : Document) (pass : Pass) :
    Transparent resolver (PassGraph.load resolver d pass) := by
  unfold PassGraph.load
  split
  · exact transparent_pure resolver none
  · split
    · exact transparent_pure resolver none
    · refine transparent_bind (transparent_instantiate resolver _ _ _) fun g => ?_
      refine transparent_bind (transparent_ofOutcome resolver _) fun p => ?_
      exact transparent_pure resolver (some p)

end MaterialGraph
