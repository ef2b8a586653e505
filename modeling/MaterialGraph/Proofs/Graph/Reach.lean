import MaterialGraph.Graph.Reach
import MaterialGraph.Proofs.Graph.Built
import MaterialGraph.Proofs.Graph.Dependence

/-!
What the walk with an explicit stack visits: the nodes that feed its starts,
directly or through others, as far as they were not visited before.
-/

namespace MaterialGraph.Graph

open Relation (ReflTransGen)

variable {g : Graph} {unvisited starts : List Nat} {a b : Nat}

theorem mem_producers_iff : a ∈ (g.node? b).elim [] Node.producers ↔ g.Feeds a b := by
  unfold Feeds Node.producers
  cases g.node? b with
  | none => simp
  | some n =>
    simp only [Option.elim_some, List.mem_filterMap]
    constructor
    · rintro ⟨c, hc, ha⟩
      cases c with
      | unbound => cases ha
      | leaf l => cases ha
      | output ref => exact ⟨n, rfl, ref, hc, Option.some.inj ha⟩
    · rintro ⟨n', hn, ref, href, rfl⟩
      cases hn
      exact ⟨.output ref, href, rfl⟩

/-- Nodes that are fed from others of the graph only. -/
theorem WellWired.lt_of_feeds (h : g.WellWired) (hab : g.Feeds a b) : a < g.size := by
  obtain ⟨n, hn, ref, href, rfl⟩ := hab
  obtain ⟨n', hn', -⟩ := h.hasOutput_of_mem hn href
  exact node?_lt hn'

/-- The result of visiting nodes from some starts. It is closed under feeding, but
for the nodes that may not be visited again. -/
structure Visits (g : Graph) (unvisited starts visited : List Nat) : Prop where
  reached : ∀ x ∈ visited, ∃ s ∈ starts, ReflTransGen g.Feeds x s
  starts : ∀ s ∈ starts, s ∈ unvisited → s ∈ visited
  closed : ∀ x ∈ visited, ∀ y, g.Feeds y x → y ∈ unvisited → y ∈ visited

theorem Visits.nil (g : Graph) (unvisited : List Nat) : g.Visits unvisited [] [] where
  reached _ hx := absurd hx List.not_mem_nil
  starts _ hs := absurd hs List.not_mem_nil
  closed _ hx := absurd hx List.not_mem_nil

/-- A node that was visited before is passed over. -/
theorem Visits.skip {id : Nat} {rest visited : List Nat} (hid : id ∉ unvisited)
    (h : g.Visits unvisited rest visited) : g.Visits unvisited (id :: rest) visited where
  reached x hx := by
    obtain ⟨s, hs, hpath⟩ := h.reached x hx
    exact ⟨s, List.mem_cons_of_mem _ hs, hpath⟩
  starts s hs hunvisited := by
    rcases List.mem_cons.1 hs with rfl | hs
    · exact absurd hunvisited hid
    · exact h.starts s hs hunvisited
  closed := h.closed

/-- A node that is visited has its producers visited next. -/
theorem Visits.visit {id : Nat} {rest visited : List Nat}
    (h : g.Visits (unvisited.erase id)
      (((g.node? id).elim [] Node.producers).reverse ++ rest) visited) :
    g.Visits unvisited (id :: rest) (id :: visited) := by
  have hproducer : ∀ y, g.Feeds y id → y ∈ unvisited.erase id → y ∈ visited := by
    intro y hy
    have hmem := List.mem_reverse.2 (mem_producers_iff.2 hy)
    exact h.starts y (List.mem_append_left _ hmem)
  refine ⟨fun x hx => ?_, fun s hs hunvisited => ?_, fun x hx y hy hunvisited => ?_⟩
  · rcases List.mem_cons.1 hx with rfl | hx
    · exact ⟨x, List.mem_cons_self, .refl⟩
    · obtain ⟨s, hs, hpath⟩ := h.reached x hx
      rcases List.mem_append.1 hs with hproducers | hrest
      · have hfeeds := mem_producers_iff.1 (List.mem_reverse.1 hproducers)
        exact ⟨id, List.mem_cons_self, hpath.tail hfeeds⟩
      · exact ⟨s, List.mem_cons_of_mem _ hrest, hpath⟩
  · by_cases heq : s = id
    · exact heq ▸ List.mem_cons_self
    · have hrest := List.mem_of_ne_of_mem heq hs
      have hstill := (List.mem_erase_of_ne heq).2 hunvisited
      exact List.mem_cons_of_mem _ (h.starts s (List.mem_append_right _ hrest) hstill)
  · by_cases heq : y = id
    · exact heq ▸ List.mem_cons_self
    · have hstill := (List.mem_erase_of_ne heq).2 hunvisited
      rcases List.mem_cons.1 hx with rfl | hx
      · exact List.mem_cons_of_mem _ (hproducer y hy hstill)
      · exact List.mem_cons_of_mem _ (h.closed x hx y hy hstill)

theorem visits_walk (g : Graph) (unvisited stack : List Nat) :
    g.Visits unvisited stack (g.walk unvisited stack) := by
  induction unvisited, stack using walk.induct g with
  | case1 unvisited =>
    rw [walk]
    exact .nil g unvisited
  | case2 unvisited id rest hid _ _ ih =>
    rw [walk, dif_pos hid]
    exact ih.visit
  | case3 unvisited id rest hid ih =>
    rw [walk, dif_neg hid]
    exact ih.skip hid

/-- Visiting from one start and then from the others, among the nodes left. -/
theorem Visits.append {start : Nat} {rest visited visited' : List Nat}
    (h : g.Visits unvisited [start] visited)
    (h' : g.Visits (unvisited.filter fun id => !visited.contains id) rest visited') :
    g.Visits unvisited (start :: rest) (visited ++ visited') := by
  have hleft : ∀ y ∈ unvisited, y ∉ visited →
      y ∈ unvisited.filter fun id => !visited.contains id := by
    intro y hy hnot
    refine List.mem_filter.2 ⟨hy, ?_⟩
    rw [Bool.not_eq_true', ← Bool.not_eq_true, List.contains_iff_mem]
    exact hnot
  refine ⟨fun x hx => ?_, fun s hs hunvisited => ?_, fun x hx y hy hunvisited => ?_⟩
  · rcases List.mem_append.1 hx with hx | hx
    · obtain ⟨s, hs, hpath⟩ := h.reached x hx
      exact ⟨s, List.mem_cons.2 (.inl (List.mem_singleton.1 hs)), hpath⟩
    · obtain ⟨s, hs, hpath⟩ := h'.reached x hx
      exact ⟨s, List.mem_cons_of_mem _ hs, hpath⟩
  · by_cases hvisited : s ∈ visited
    · exact List.mem_append_left _ hvisited
    · rcases List.mem_cons.1 hs with rfl | hs
      · exact absurd (h.starts s List.mem_cons_self hunvisited) hvisited
      · exact List.mem_append_right _ (h'.starts s hs (hleft s hunvisited hvisited))
  · by_cases hvisited : y ∈ visited
    · exact List.mem_append_left _ hvisited
    · rcases List.mem_append.1 hx with hx | hx
      · exact absurd (h.closed x hx y hy hunvisited) hvisited
      · exact List.mem_append_right _ (h'.closed x hx y hy (hleft y hunvisited hvisited))

theorem visits_walkFrom (g : Graph) (unvisited starts : List Nat) :
    g.Visits unvisited starts (g.walkFrom unvisited starts) := by
  induction starts generalizing unvisited with
  | nil => exact .nil g unvisited
  | cons start rest ih =>
    rw [walkFrom]
    exact (visits_walk g unvisited [start]).append (ih _)

/-- From starts in the graph, exactly the nodes that feed them are visited. -/
theorem mem_walkFrom_iff (h : g.WellWired) (hstarts : ∀ s ∈ starts, s < g.size) :
    a ∈ g.walkFrom g.ids starts ↔ ∃ s ∈ starts, ReflTransGen g.Feeds a s := by
  have hvisits := visits_walkFrom g g.ids starts
  refine ⟨hvisits.reached a, ?_⟩
  rintro ⟨s, hs, hpath⟩
  induction hpath using ReflTransGen.head_induction_on with
  | refl => exact hvisits.starts s hs (List.mem_range.2 (hstarts s hs))
  | head hab _ ih => exact hvisits.closed _ ih _ hab (List.mem_range.2 (h.lt_of_feeds hab))

/-- A node is found from a start if it feeds it. -/
theorem mem_reachable_iff (h : g.WellWired) (hb : b < g.size) :
    a ∈ g.reachable b ↔ ReflTransGen g.Feeds a b := by
  have hwalk : a ∈ g.walk g.ids [b] ↔ ReflTransGen g.Feeds a b := by
    have hfrom : a ∈ g.walkFrom g.ids [b] ↔ ∃ s ∈ [b], ReflTransGen g.Feeds a s :=
      mem_walkFrom_iff h (by simpa using hb)
    simpa [walkFrom] using hfrom
  have hlt (hpath : ReflTransGen g.Feeds a b) : a < g.size := by
    rcases ReflTransGen.cases_head hpath with rfl | ⟨c, hac, -⟩
    · exact hb
    · exact h.lt_of_feeds hac
  rw [reachable, List.mem_filter, List.contains_iff_mem, hwalk, ids, List.mem_range]
  exact and_iff_right_of_imp hlt

end MaterialGraph.Graph
