import MaterialGraph.Proofs.Graph.Search
import MaterialGraph.Proofs.PassGraph.Usage

/-!
The live part of a pass, found in two ways: from each output on its own, and from all
of them with one record of what was visited. Main statement: on every graph that the
operations build, both ways find exactly the nodes the outputs depend on, and the
usage has exactly the leaves there.
-/

namespace MaterialGraph.PassGraph

open Relation (ReflTransGen)
open Graph.Search (Finds Sweeps)

variable {p : PassGraph} {id : Nat}

theorem lt_of_mem_starts (h : p.Linked) {start : Nat} (hstart : start ∈ p.starts) :
    start < p.graph.size := by
  obtain ⟨o, ref, ho, rfl⟩ := mem_starts_iff.1 hstart
  obtain ⟨n, hn, -⟩ := h.outputs o ref ho
  exact Graph.node?_lt hn

theorem live_iff_start : p.Live id ↔ ∃ start ∈ p.starts, ReflTransGen p.graph.Feeds id start := by
  constructor
  · intro hlive
    obtain ⟨o, ref, ho, hpath⟩ := hlive
    exact ⟨ref.node, mem_starts_iff.2 ⟨o, ref, ho, rfl⟩, hpath⟩
  · intro hlive
    obtain ⟨start, hstart, hpath⟩ := hlive
    obtain ⟨o, ref, ho, rfl⟩ := mem_starts_iff.1 hstart
    exact ⟨o, ref, ho, hpath⟩

/-- Walking from each output on its own finds the live nodes. -/
theorem exists_reachable_iff (h : p.Linked) :
    (∃ start ∈ p.starts, id ∈ p.graph.reachable start) ↔ p.Live id := by
  rw [live_iff_start]
  constructor
  · intro hfound
    obtain ⟨start, hstart, hid⟩ := hfound
    exact ⟨start, hstart, (Graph.mem_reachable_iff h.wellWired (lt_of_mem_starts h hstart)).1 hid⟩
  · intro hlive
    obtain ⟨start, hstart, hpath⟩ := hlive
    exact ⟨start, hstart,
      (Graph.mem_reachable_iff h.wellWired (lt_of_mem_starts h hstart)).2 hpath⟩

theorem Live.lt (h : p.Linked) (hlive : p.Live id) : id < p.graph.size := by
  obtain ⟨start, hstart, hpath⟩ := live_iff_start.1 hlive
  rcases ReflTransGen.cases_head hpath with rfl | ⟨next, hfeeds, -⟩
  · exact lt_of_mem_starts h hstart
  · exact h.wellWired.lt_of_feeds hfeeds

theorem mem_live_iff (h : p.Linked) : id ∈ p.live ↔ p.Live id := by
  rw [live, List.mem_filter, List.contains_iff_mem, mem_visits_iff h, Graph.ids, List.mem_range]
  exact and_iff_right_of_imp (Live.lt h)

/-- Both ways of walking end, on every graph, and they find what the outputs depend on. -/
theorem live_and_usage_exact (p : PassGraph) (hbuilt : p.graph.Built)
    (hslots : ∀ o ref, p.output o = .output ref → p.graph.HasOutput ref) :
    (∀ id, id ∈ p.live ↔ p.Live id) ∧
      (∀ id, (∃ start ∈ p.starts, id ∈ p.graph.reachable start) ↔ p.Live id) ∧
      (∀ source index, index ∈ p.usage.indices source ↔ p.LiveLeaf ⟨source, index⟩) ∧
      (∀ start ∈ p.starts, Finds p.graph ⟨[], [start]⟩ (p.graph.walk p.graph.ids [start])) ∧
      Sweeps p.graph [] p.starts p.visits ∧
      ∀ g s, ∃ found, Finds g s found := by
  have h : p.Linked := ⟨hbuilt.wellWired, hslots⟩
  refine ⟨fun id => mem_live_iff h, fun id => exists_reachable_iff h,
    fun source index => has_usage_iff (l := ⟨source, index⟩) h, fun start hstart => ?_, ?_,
    Graph.Search.exists_finds⟩
  · have hlt : ∀ id ∈ [start], id < p.graph.size := by
      simpa using lt_of_mem_starts h hstart
    exact Graph.Search.finds_walk h.wellWired (.start p.graph) hlt
  · exact Graph.Search.sweeps_walkFrom h.wellWired (.start p.graph) fun id => lt_of_mem_starts h

/-- Two nodes that feed each other, one of them itself as well, and a node that
nothing depends on. -/
def looped : PassGraph where
  pass := .default
  graph := ⟨[
    { name := "a"
      type := ⟨"Add", [⟨"a", .float4, none, 0⟩, ⟨"b", .sampler2D, none, 1⟩],
        [⟨"r", .float4, none, -1⟩], none⟩
      inputs := [.output ⟨1, 0⟩, .leaf ⟨.texture, 2⟩]
      consumers := [[⟨1, 0⟩]] },
    { name := "b"
      type := ⟨"Add", [⟨"a", .float4, none, 0⟩, ⟨"b", .float4, none, 1⟩, ⟨"c", .float4, none, 2⟩],
        [⟨"r", .float4, none, -1⟩], none⟩
      inputs := [.output ⟨0, 0⟩, .output ⟨1, 0⟩, .unbound]
      consumers := [[⟨0, 0⟩, ⟨1, 1⟩, ⟨2, 0⟩]] },
    { name := "c"
      type := ⟨"Add", [⟨"a", .float4, none, 0⟩, ⟨"b", .sampler2D, none, 1⟩],
        [⟨"r", .float4, none, -1⟩], none⟩
      inputs := [.output ⟨1, 0⟩, .leaf ⟨.texture, 5⟩]
      consumers := [[]] }]⟩
  color := .output ⟨1, 0⟩
  depth := .leaf ⟨.normal, 1⟩

theorem looped_built : looped.graph.Built := by
  have first := Graph.Built.instantiate "a" (looped.graph.nodes[0]).type .empty
  have second := Graph.Built.instantiate "b" (looped.graph.nodes[1]).type first
  have third := Graph.Built.instantiate "c" (looped.graph.nodes[2]).type second
  have forth := Graph.Built.connect (o := ⟨1, 0⟩) (i := ⟨0, 0⟩) third rfl
  have back := Graph.Built.connect (o := ⟨0, 0⟩) (i := ⟨1, 0⟩) forth rfl
  have self := Graph.Built.connect (o := ⟨1, 0⟩) (i := ⟨1, 1⟩) back rfl
  have aside := Graph.Built.connect (o := ⟨1, 0⟩) (i := ⟨2, 0⟩) self rfl
  have leaf := Graph.Built.bindLeaf (i := ⟨0, 1⟩) (l := ⟨.texture, 2⟩) aside rfl
  exact .bindLeaf (i := ⟨2, 1⟩) (l := ⟨.texture, 5⟩) leaf rfl

theorem looped_slots (o : Output) (ref : OutputRef) (ho : looped.output o = .output ref) :
    looped.graph.HasOutput ref := by
  cases o with
  | color =>
    cases ho
    exact ⟨_, rfl, by decide⟩
  | alpha => cases ho
  | depth => cases ho

theorem looped_visits : looped.visits = [1, 0] := by
  have hfirst : (looped.graph.node? 0).elim [] Node.producers = [1] := rfl
  have hsecond : (looped.graph.node? 1).elim [] Node.producers = [0, 1] := rfl
  change looped.graph.walk [0, 1, 2] [1] ++ [] = _
  simp [Graph.walk, hfirst, hsecond]

theorem live_and_usage_exact_looped :
    looped.graph.Built ∧
      (∀ o ref, looped.output o = .output ref → looped.graph.HasOutput ref) ∧
      looped.live = [0, 1] ∧ looped.Live 0 ∧ ¬looped.Live 2 ∧
      (looped.usage.indices .texture).toList = [2] ∧ looped.LiveLeaf ⟨.texture, 2⟩ ∧
      ¬looped.LiveLeaf ⟨.texture, 5⟩ := by
  obtain ⟨hlive, -, husage, -⟩ := live_and_usage_exact looped looped_built looped_slots
  have hids : looped.live = [0, 1] := by
    unfold live
    rw [looped_visits]
    rfl
  have hindices : (looped.usage.indices .texture).toList = [2] := by
    unfold usage inputLeaves
    rw [looped_visits]
    rfl
  have hmem (index : UInt8) : looped.LiveLeaf ⟨.texture, index⟩ ↔ index ∈ [2] := by
    rw [← hindices]
    exact (husage .texture index).symm
  refine ⟨looped_built, looped_slots, hids, ?_, ?_, hindices, ?_, ?_⟩
  · exact (hlive 0).1 (by rw [hids]; decide)
  · exact fun h => absurd ((hlive 2).2 h) (by rw [hids]; decide)
  · exact (hmem 2).2 (by decide)
  · exact fun h => absurd ((hmem 5).1 h) (by decide)

end MaterialGraph.PassGraph
