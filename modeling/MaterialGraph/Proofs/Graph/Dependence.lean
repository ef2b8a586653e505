import Mathlib.Logic.Relation
import Mathlib.Tactic.ByContra
import MaterialGraph.Proofs.Graph.Wiring

/-!
Which nodes receive values from which. A walk against the wires takes every node
it enters from those that are available; the invariant that a cycle test rests
on is that the nodes taken are fed by the node the walk has reached.
-/

namespace MaterialGraph

open Relation (TransGen)

/-- Every node that is not available lies on the way to the node `id`. -/
def OnWay (feeds : Nat → Nat → Prop) (size : Nat) (available : List Nat) (id : Nat) : Prop :=
  ∀ x < size, x ∉ available → TransGen feeds id x

namespace OnWay

variable {feeds : Nat → Nat → Prop} {size id a : Nat} {available : List Nat}

theorem start (feeds : Nat → Nat → Prop) (size id : Nat) :
    OnWay feeds size (List.range size) id :=
  fun _ hlt hx => absurd (List.mem_range.2 hlt) hx

/-- A node outside every cycle is available when the walk enters it. -/
theorem mem_available (h : OnWay feeds size available id) (hid : id < size)
    (hacyclic : ¬TransGen feeds id id) : id ∈ available := by
  by_contra hn
  exact hacyclic (h id hid hn)

theorem step (h : OnWay feeds size available id) (ha : feeds a id) :
    OnWay feeds size (available.erase id) a := by
  intro x hlt hx
  by_cases hid : x = id
  · subst hid
    exact .single ha
  · exact .head ha (h x hlt fun hmem => hx ((List.mem_erase_of_ne hid).2 hmem))

end OnWay

namespace Graph

/-- Whether an input of node `b` is wired to an output of node `a`. -/
def Feeds (g : Graph) (a b : Nat) : Prop :=
  ∃ n, g.node? b = some n ∧ ∃ ref, .output ref ∈ n.inputs ∧ ref.node = a

/-- A graph whose wires lead to later nodes only has no cycle. -/
theorem not_transGen_of_lt {g : Graph} (h : ∀ a b, g.Feeds a b → a < b) (id : Nat) :
    ¬TransGen g.Feeds id id := by
  have hlt : ∀ {a b}, TransGen g.Feeds a b → a < b := by
    intro a b hab
    induction hab with
    | single hab => exact h _ _ hab
    | tail _ hbc ih => exact Nat.lt_trans ih (h _ _ hbc)
  exact fun hid => Nat.lt_irrefl id (hlt hid)

end Graph

end MaterialGraph
