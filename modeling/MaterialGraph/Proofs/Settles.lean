import MaterialGraph.Assembly.Assemble
import MaterialGraph.Proofs.Registry

/-!
What comes of results and actions that may fail: either an answer with some property,
or a failure that is a compile error of some kinds. Steps that settle so settle so
when they are put together.
-/

namespace MaterialGraph

/-- Whether a failure is a compile error of some kinds. -/
def Failure.Among (f : Failure) (errors : CompileError → Prop) : Prop :=
  ∃ e, f.cause = .compile e ∧ errors e

/-- Whether a resolver has an answer for every name, be it that there is no text. -/
def Resolver.Answers (resolver : Resolver) : Prop :=
  ∀ kind name, ∃ text?, resolver.resolve kind name = .ok text?

theorem ResourceTable.answers (t : ResourceTable) : t.resolver.Answers :=
  fun _ _ => ⟨_, rfl⟩

namespace Outcome

variable {α β : Type} {errors : CompileError → Prop} {post : α → Prop} {r : Outcome α}

/-- Whether a result is an answer with a property or a compile error of some kinds. -/
def Settles (errors : CompileError → Prop) (post : α → Prop) : Outcome α → Prop
  | .ok a => post a
  | .error f => f.Among errors

theorem settles_iff : r.Settles errors post ↔
    (∀ a, r = .ok a → post a) ∧ ∀ f, r = .error f → f.Among errors := by
  cases r with
  | ok a => exact ⟨fun h => ⟨fun b hb => Except.ok.inj hb ▸ h, nofun⟩, fun h => h.1 a rfl⟩
  | error f => exact ⟨fun h => ⟨nofun, fun g hg => Except.error.inj hg ▸ h⟩, fun h => h.2 f rfl⟩

theorem settles_compile {e : CompileError} (h : errors e) :
    Settles errors post (.error (.compile e)) :=
  ⟨e, rfl, h⟩

theorem settles_mapError {x : Except CompileError α} (hok : ∀ a, x = .ok a → post a)
    (herror : ∀ e, x = .error e → errors e) :
    Settles errors post (x.mapError Failure.compile) := by
  cases x with
  | ok a => exact hok a rfl
  | error e => exact settles_compile (herror e rfl)

theorem Settles.during (h : r.Settles errors post) (activity : String) :
    (r.during activity).Settles errors post := by
  cases r with
  | ok a => exact h
  | error f => exact h

theorem Settles.bind {k : α → Outcome β} {post' : β → Prop} (h : r.Settles errors post)
    (hk : ∀ a, r = .ok a → post a → (k a).Settles errors post') :
    (r >>= k).Settles errors post' := by
  cases r with
  | ok a => exact hk a rfl h
  | error f => exact h

theorem Settles.imp {post' : α → Prop} (h : r.Settles errors post)
    (himp : ∀ a, post a → post' a) : r.Settles errors post' := by
  cases r with
  | ok a => exact himp a h
  | error f => exact h

/-- The answer itself may be kept as what is known of it. -/
theorem Settles.eq (h : r.Settles errors post) : r.Settles errors fun a => r = .ok a := by
  cases r with
  | ok a => rfl
  | error f => exact h

theorem settles_resolve {resolver : Resolver} (h : resolver.Answers) (kind : ResourceKind)
    (name : String) : (resolver.resolve kind name).Settles errors fun _ => True := by
  obtain ⟨text?, htext⟩ := h kind name
  rw [htext]
  trivial

end Outcome

namespace Action

variable {σ α β : Type} {errors : CompileError → Prop} {post : α → Prop} {x : Action σ α}

/-- Whether what comes of an action settles, in any state. -/
def Settles (errors : CompileError → Prop) (post : α → Prop) (x : Action σ α) : Prop :=
  ∀ a, Outcome.Settles errors post (x.run a).1

theorem run_ofOutcome {r answer : Outcome α} (h : r = answer) (state : σ) :
    (ofOutcome r).run state = (answer, state) :=
  Prod.ext h rfl

theorem settles_pure {a : α} (h : post a) : (pure a : Action σ α).Settles errors post :=
  fun _ => h

theorem settles_get : (get : Action σ σ).Settles errors fun _ => True :=
  fun _ => trivial

theorem settles_ofOutcome {r : Outcome α} (h : r.Settles errors post) :
    (ofOutcome r : Action σ α).Settles errors post :=
  fun _ => h

theorem Settles.bind {k : α → Action σ β} {post' : β → Prop} (hx : x.Settles errors post)
    (hk : ∀ b, post b → (k b).Settles errors post') : (x >>= k).Settles errors post' := by
  intro a
  have hfirst := hx a
  rcases hrun : x.run a with ⟨answer, a'⟩
  rw [hrun] at hfirst
  cases answer with
  | error f =>
    rw [Loading.run_bind_of_error hrun]
    exact hfirst
  | ok b =>
    rw [Loading.run_bind_of_ok hrun]
    exact hk b hfirst a'

end Action

end MaterialGraph
