import Mathlib.Algebra.BigOperators.Group.Finset.Basic
import Mathlib.Algebra.Order.BigOperators.Group.Finset
import MaterialGraph.Proofs.Graph.Reach

/-!
A walk as a loop that takes one node off the stack in every turn. A turn spends a
place on the stack or a wire that no turn has followed yet, so the loop ends on every
graph, cyclic ones included, and what it has visited then is what the walk gives.
-/

namespace MaterialGraph.Graph

/-- The nodes a walk has visited, in the order of their visits, and those it visits next. -/
structure Search where
  visited : List Nat
  stack : List Nat

/-- The number of wires that lead into a node. -/
def wiresInto (g : Graph) (id : Nat) : Nat :=
  ((g.node? id).elim [] Node.producers).length

def wireCount (g : Graph) : Nat :=
  ∑ id ∈ Finset.range g.size, g.wiresInto id

namespace Search

/-- A turn takes the node on top of the stack, and passes over it if it was visited. -/
def turn? (g : Graph) (s : Search) : Option Search :=
  match s.stack with
  | [] => none
  | id :: rest =>
    if id ∈ s.visited then some ⟨s.visited, rest⟩
    else
      some ⟨s.visited ++ [id], ((g.node? id).elim [] Node.producers).reverse ++ rest⟩

/-- Where a number of turns lead, if the loop goes on for as long. -/
def turns? (g : Graph) : Nat → Search → Option Search
  | 0, s => some s
  | n + 1, s => (s.turn? g).bind (turns? g n)

/-- The wires into nodes that are not visited yet and the places on the stack. -/
def potential (g : Graph) (s : Search) : Nat :=
  s.stack.length + ∑ id ∈ Finset.range g.size \ s.visited.toFinset, g.wiresInto id

/-- Whether the loop ends, in time, with certain nodes visited. -/
def Finds (g : Graph) (s : Search) (found : List Nat) : Prop :=
  ∃ n ≤ s.stack.length + g.wireCount, turns? g n s = some ⟨found, []⟩

variable {g : Graph} {s t : Search}

theorem wiresInto_of_le {id : Nat} (h : g.size ≤ id) : g.wiresInto id = 0 := by
  have hnone : g.node? id = none := List.getElem?_eq_none h
  rw [wiresInto, hnone]
  rfl

/-- Visiting a node gives up the wires into it. -/
theorem sum_visit {visited : List Nat} {id : Nat} (h : id ∉ visited) :
    g.wiresInto id + ∑ x ∈ Finset.range g.size \ (visited ++ [id]).toFinset, g.wiresInto x =
      ∑ x ∈ Finset.range g.size \ visited.toFinset, g.wiresInto x := by
  have herase : Finset.range g.size \ (visited ++ [id]).toFinset =
      (Finset.range g.size \ visited.toFinset).erase id := by
    ext x
    simp only [Finset.mem_sdiff, Finset.mem_erase, List.mem_toFinset, List.mem_append,
      List.mem_singleton]
    tauto
  rw [herase]
  by_cases hid : id < g.size
  · exact Finset.add_sum_erase _ _ (by simp [hid, h])
  · rw [wiresInto_of_le (Nat.le_of_not_lt hid), Nat.zero_add, Finset.erase_eq_of_notMem]
    simp [hid]

theorem turn?_of_mem {visited rest : List Nat} {id : Nat} (h : id ∈ visited) :
    turn? g ⟨visited, id :: rest⟩ = some ⟨visited, rest⟩ :=
  if_pos h

theorem turn?_of_not_mem {visited rest : List Nat} {id : Nat} (h : id ∉ visited) :
    turn? g ⟨visited, id :: rest⟩ =
      some ⟨visited ++ [id], ((g.node? id).elim [] Node.producers).reverse ++ rest⟩ :=
  if_neg h

/-- Every turn spends one place on the stack or one wire. -/
theorem potential_turn (h : s.turn? g = some t) : t.potential g + 1 = s.potential g := by
  obtain ⟨visited, stack⟩ := s
  cases stack with
  | nil => cases h
  | cons id rest =>
    by_cases hid : id ∈ visited
    · rw [turn?_of_mem hid] at h
      cases h
      simp only [potential, List.length_cons]
      omega
    · rw [turn?_of_not_mem hid] at h
      cases h
      have hsum := sum_visit (g := g) hid
      simp only [potential, List.length_append, List.length_reverse, List.length_cons]
      rw [← hsum, wiresInto]
      omega

theorem potential_turns {n : Nat} (h : turns? g n s = some t) :
    n + t.potential g = s.potential g := by
  induction n generalizing s with
  | zero =>
    cases h
    exact Nat.zero_add _
  | succ n ih =>
    obtain ⟨s₁, hturn, hturns⟩ := Option.bind_eq_some_iff.1 h
    have hfirst := potential_turn hturn
    have hrest := ih hturns
    omega

theorem finds_of_turns {n : Nat} {found : List Nat} (h : turns? g n s = some ⟨found, []⟩) :
    Finds g s found := by
  have hspent := potential_turns h
  have hbound : ∑ id ∈ Finset.range g.size \ s.visited.toFinset, g.wiresInto id ≤ g.wireCount :=
    Finset.sum_le_sum_of_subset Finset.sdiff_subset
  refine ⟨n, ?_, h⟩
  rw [potential, potential] at hspent
  omega

/-- The loop ends on every graph, from whatever state. -/
theorem exists_finds (g : Graph) (s : Search) : ∃ found, Finds g s found := by
  suffices hend : ∃ n found, turns? g n s = some ⟨found, []⟩ by
    obtain ⟨n, found, h⟩ := hend
    exact ⟨found, finds_of_turns h⟩
  induction hpotential : s.potential g using Nat.strong_induction_on generalizing s with
  | _ k ih =>
    cases hturn : s.turn? g with
    | none =>
      obtain ⟨visited, stack⟩ := s
      cases stack with
      | nil => exact ⟨0, visited, rfl⟩
      | cons id rest =>
        by_cases hid : id ∈ visited
        · rw [turn?_of_mem hid] at hturn
          cases hturn
        · rw [turn?_of_not_mem hid] at hturn
          cases hturn
    | some t =>
      have hspent := potential_turn hturn
      obtain ⟨n, found, h⟩ := ih (t.potential g) (by omega) t rfl
      exact ⟨n + 1, found, by rw [turns?, hturn, Option.bind_some, h]⟩

end Search

/-- What a walk may visit is what it has not visited. -/
structure Apart (g : Graph) (visited unvisited : List Nat) : Prop where
  nodup : unvisited.Nodup
  mem_iff : ∀ id < g.size, id ∈ unvisited ↔ id ∉ visited

namespace Apart

variable {g : Graph} {visited unvisited : List Nat}

theorem start (g : Graph) : g.Apart [] g.ids where
  nodup := List.nodup_range
  mem_iff id hid := by simp [ids, hid]

theorem visit (h : g.Apart visited unvisited) (id : Nat) :
    g.Apart (visited ++ [id]) (unvisited.erase id) where
  nodup := h.nodup.erase id
  mem_iff x hx := by
    rw [h.nodup.mem_erase_iff, h.mem_iff x hx, List.mem_append, List.mem_singleton, not_or,
      and_comm]

theorem visitAll (h : g.Apart visited unvisited) (found : List Nat) :
    g.Apart (visited ++ found) (unvisited.filter fun id => !found.contains id) where
  nodup := h.nodup.filter _
  mem_iff x hx := by
    simp [h.mem_iff x hx]

end Apart

namespace Search

variable {g : Graph} {visited unvisited stack : List Nat}

theorem exists_turns_walk (hg : g.WellWired) (unvisited stack : List Nat) :
    ∀ visited, g.Apart visited unvisited → (∀ id ∈ stack, id < g.size) →
      ∃ n, turns? g n ⟨visited, stack⟩ = some ⟨visited ++ g.walk unvisited stack, []⟩ := by
  -- Along the walk; that the unvisited nodes are those not visited carries it.
  induction unvisited, stack using walk.induct g with
  | case1 unvisited =>
    intro visited _ _
    rw [walk, List.append_nil]
    exact ⟨0, rfl⟩
  | case2 unvisited id rest hid _ _ ih =>
    intro visited h hstack
    have hnew : id ∉ visited := (h.mem_iff id (hstack id List.mem_cons_self)).1 hid
    have hnext : ∀ x ∈ ((g.node? id).elim [] Node.producers).reverse ++ rest, x < g.size := by
      intro x hx
      rcases List.mem_append.1 hx with hx | hx
      · exact hg.lt_of_feeds (mem_producers_iff.1 (List.mem_reverse.1 hx))
      · exact hstack x (List.mem_cons_of_mem id hx)
    obtain ⟨n, hn⟩ := ih _ (h.visit id) hnext
    refine ⟨n + 1, ?_⟩
    rw [turns?, turn?_of_not_mem hnew, Option.bind_some, hn, walk, dif_pos hid, List.append_assoc]
    rfl
  | case3 unvisited id rest hid ih =>
    intro visited h hstack
    have hold : id ∈ visited := by
      by_contra hnew
      exact hid ((h.mem_iff id (hstack id List.mem_cons_self)).2 hnew)
    obtain ⟨n, hn⟩ := ih _ h fun x hx => hstack x (List.mem_cons_of_mem id hx)
    refine ⟨n + 1, ?_⟩
    rw [turns?, turn?_of_mem hold, Option.bind_some, hn, walk, dif_neg hid]

/-- The loop visits what the walk gives, after what was visited before. -/
theorem finds_walk (hg : g.WellWired) (h : g.Apart visited unvisited)
    (hstack : ∀ id ∈ stack, id < g.size) :
    Finds g ⟨visited, stack⟩ (visited ++ g.walk unvisited stack) := by
  obtain ⟨n, hn⟩ := exists_turns_walk hg unvisited stack visited h hstack
  exact finds_of_turns hn

/-- Whether loops from some starts, one after the other, end with certain nodes visited. -/
inductive Sweeps (g : Graph) : List Nat → List Nat → List Nat → Prop
  | nil (visited : List Nat) : Sweeps g visited [] visited
  | cons {visited visited' found rest : List Nat} {start : Nat}
      (hstart : Finds g ⟨visited, [start]⟩ visited') (hrest : Sweeps g visited' rest found) :
      Sweeps g visited (start :: rest) found

theorem sweeps_walkFrom {starts : List Nat} (hg : g.WellWired) (h : g.Apart visited unvisited)
    (hstarts : ∀ id ∈ starts, id < g.size) :
    Sweeps g visited starts (visited ++ g.walkFrom unvisited starts) := by
  induction starts generalizing visited unvisited with
  | nil =>
    rw [walkFrom, List.append_nil]
    exact .nil visited
  | cons start rest ih =>
    have hstart : ∀ id ∈ [start], id < g.size := fun id hid =>
      hstarts id (List.mem_cons.2 (.inl (List.mem_singleton.1 hid)))
    rw [walkFrom, ← List.append_assoc]
    exact .cons (finds_walk hg h hstart)
      (ih (h.visitAll _) fun id hid => hstarts id (List.mem_cons_of_mem start hid))

end Search

end MaterialGraph.Graph
