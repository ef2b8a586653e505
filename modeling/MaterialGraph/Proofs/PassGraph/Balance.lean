import MaterialGraph.Proofs.PassGraph.Load
import MaterialGraph.Proofs.PassGraph.Resolution

/-!
The nodes that are done once an output is resolved. Main statement: resolving has a value
on every document, with never more nodes being resolved than the document has; whenever
the binding of an output is resolved none is being resolved any more, and those that are
done are bound, lie on no cycle and have all that they refer to done as well.
-/

namespace MaterialGraph.PassGraph

open Relation (TransGen)
open Document (WrittenPass)

variable {d : Document} {types : String → Outcome NodeType} {w : Wiring} {s : Resolution}
  {a id : Nat}

/-- The nodes that are done, as the document refers to them and as the graph is wired. -/
structure Resolution.Balanced (d : Document) (s : Resolution) : Prop where
  resolving : s.resolving = []
  closed : ∀ id ∈ s.done, ∀ name, d.Refers name (d.nameAt id) → ∃ i ∈ s.done, d.nameAt i = name
  acyclic : ∀ id ∈ s.done, ¬TransGen d.Refers (d.nameAt id) (d.nameAt id)
  bound : ∀ id ∈ s.done, ∃ n, s.graph.node? id = some n ∧ .unbound ∉ n.inputs
  fed : ∀ id ∈ s.done, ∀ a, s.graph.Feeds a id → a ∈ s.done
  loopless : ∀ id ∈ s.done, ¬TransGen s.graph.Feeds id id

theorem Wiring.Sound.stands_of_mem (hw : w.Sound d types) (hid : id ∈ w.wired) {n : Node}
    (hn : w.graph.node? id = some n) {target : Binding} (htarget : target ∈ n.inputs) :
    ∃ b, d.Stands types b target ∧ ∀ name, b.RefersTo name → d.Refers name (d.nameAt id) := by
  obtain ⟨e, hnode⟩ := hw.skeleton.isNode hn
  obtain ⟨k, hk⟩ := List.getElem?_of_mem htarget
  have hlt : k < n.type.inputs.length :=
    hnode.inputs_length ▸ (List.getElem?_eq_some_iff.1 hk).1
  obtain ⟨b, target', hb, htarget', hstands⟩ :=
    (hw.complete id hid).bound hnode.entry hnode.type k _ (List.getElem?_eq_getElem hlt)
  have heq : target' = target := by
    rw [Graph.binding?, hn, Option.bind_some, hk] at htarget'
    exact (Option.some.inj htarget').symm
  exact ⟨b, heq ▸ hstands, fun name => refers_of_isNode hnode hb⟩

/-- What feeds a node that is wired is what the document refers to, and it is wired. -/
theorem Wiring.Sound.wired_of_feeds (hw : w.Sound d types) (hid : id ∈ w.wired)
    (ha : w.graph.Feeds a id) : a ∈ w.wired ∧ d.FeedsAt a id := by
  obtain ⟨n, hn, ref, href, rfl⟩ := ha
  obtain ⟨b, hstands, hrefers⟩ := hw.stands_of_mem hid hn href
  cases hstands with
  | @output name _ _ _ _ _ hb hentry _ _ =>
    have hname := Document.nameAt_eq hentry
    have hfeeds := hrefers name ⟨_, hb⟩
    obtain ⟨i, hi, hsame⟩ := (hw.complete id hid).closed name hfeeds
    have hlt := (List.getElem?_eq_some_iff.1 hentry).1
    obtain rfl := nameAt_injective (hw.complete i hi).lt_size hlt (hsame.trans hname.symm)
    exact ⟨hi, by rwa [Document.FeedsAt, hname]⟩

theorem Wiring.Sound.transGen_of_feeds (hw : w.Sound d types) (hid : id ∈ w.wired)
    (h : TransGen w.graph.Feeds a id) : a ∈ w.wired ∧ TransGen d.FeedsAt a id := by
  induction h using TransGen.head_induction_on with
  | single ha =>
    obtain ⟨hwired, hfeeds⟩ := hw.wired_of_feeds hid ha
    exact ⟨hwired, .single hfeeds⟩
  | head ha _ ih =>
    obtain ⟨hwired, hpath⟩ := ih
    obtain ⟨hwired', hfeeds⟩ := hw.wired_of_feeds hwired ha
    exact ⟨hwired', .head hfeeds hpath⟩

theorem Resolution.Mirrors.balanced {available : List Nat} (h : s.Mirrors available w)
    (hw : w.Sound d types) (hresolving : s.resolving = []) : s.Balanced d where
  resolving := hresolving
  closed id hid := by
    rw [h.done] at hid ⊢
    exact (hw.complete id hid).closed
  acyclic id hid := by
    rw [h.done] at hid
    exact (hw.complete id hid).wireable.acyclic
  bound id hid := by
    rw [h.done] at hid
    obtain ⟨written, hentry⟩ := Document.entry_of_lt (hw.complete id hid).lt_size
    obtain ⟨n, hn, -, -⟩ := hw.skeleton.node hentry
    refine ⟨n, h.graph ▸ hn, fun hunbound => ?_⟩
    obtain ⟨b, hstands, -⟩ := hw.stands_of_mem hid hn hunbound
    cases hstands
  fed id hid a ha := by
    rw [h.done] at hid ⊢
    exact (hw.wired_of_feeds hid (h.graph ▸ ha)).1
  loopless id hid hcycle := by
    rw [h.done] at hid
    have hpath := (hw.transGen_of_feeds hid (h.graph ▸ hcycle)).2
    exact (hw.complete id hid).wireable.acyclic (Document.transGen_of_feedsAt hpath)

variable {pass : Pass} {written : WrittenPass} {g : Graph} {depth : Nat}

theorem tracks_resolveOutputs (pass : Pass) (written : WrittenPass) (hg : d.Skeleton types g)
    (hdepth : d.nodes.size < depth) (outputs : List Output) : Tracks { graph := g } g.ids
      ((resolveOutputs d pass written depth outputs).run { graph := g })
      (wireEach d pass written outputs ⟨g, []⟩) := by
  have hlt : g.size < depth := by rwa [hg.size_eq]
  exact outputsTrack (.start g) hlt

/-- The state after some outputs is that of a sound wiring, with no nodes being resolved. -/
theorem exists_sound_of_resolveOutputs (hg : d.Skeleton types g) (hdepth : d.nodes.size < depth)
    {before : List Output} {targets : List Binding}
    (h : (resolveOutputs d pass written depth before).run { graph := g } =
      some (.ok targets, s)) :
    ∃ w, s.Mirrors w.graph.ids w ∧ w.Sound d types ∧ s.resolving = [] := by
  have htracks := tracks_resolveOutputs pass written hg hdepth before
  cases hwire : wireEach d pass written before ⟨g, []⟩ with
  | error f =>
    rw [hwire] at htracks
    obtain ⟨s', hrun, -⟩ := htracks
    cases hrun.symm.trans h
  | ok result =>
    obtain ⟨targets', w⟩ := result
    rw [hwire] at htracks
    obtain ⟨s', hrun, hmirrors, hresolving⟩ := htracks
    cases hrun.symm.trans h
    have hids : w.graph.ids = g.ids := by
      rw [Graph.ids, Graph.ids,
        (Resolution.Mirrors.start g).size_eq_of_resolving hmirrors hresolving]
    have hinitial : Wiring.Sound d types ⟨g, []⟩ :=
      ⟨hg, fun id hid => absurd hid List.not_mem_nil⟩
    exact ⟨w, hids ▸ hmirrors, wireEach_sound hinitial hwire, hresolving⟩

/-- Resolving the binding of an output comes to something, and to a balanced state if it
succeeds. -/
theorem Resolution.Mirrors.exists_resolved (h : s.Mirrors w.graph.ids w) (hw : w.Sound d types)
    (hresolving : s.resolving = []) (hdepth : d.nodes.size < depth) (site : String)
    (b : Document.WrittenBinding) :
    ∃ outcome s', (resolveBinding (resolveNode d.nodes.values depth) site b).run s =
        some (outcome, s') ∧
      s'.peak ≤ d.nodes.size ∧ ∀ target, outcome = .ok target → s'.Balanced d := by
  have hsize := hw.skeleton.size_eq
  have hids : w.graph.ids = List.range d.nodes.size := by rw [Graph.ids, hsize]
  have hlength : w.graph.ids.length < depth := by rwa [hids, List.length_range]
  have htracks := bindingTracks d.nodes.values w.graph.ids site b w s depth h hlength
  have hresult := wiresBinding d types w.graph.ids site b w hw (hids ▸ List.nodup_range)
    fun a _ => hids ▸ OnWay.start _ _ a
  cases hwire : wireBinding d.nodes.values w.graph.ids site b w with
  | error f =>
    rw [hwire] at htracks
    obtain ⟨s', hrun, hpeak⟩ := htracks
    rw [h.graph, hsize] at hpeak
    exact ⟨_, s', hrun, hpeak, fun target h => (by cases h)⟩
  | ok result =>
    obtain ⟨target, w'⟩ := result
    rw [hwire] at htracks hresult
    obtain ⟨s', hrun, hmirrors, hsame⟩ := htracks
    obtain ⟨hw', -⟩ := hresult
    exact ⟨_, s', hrun, hw'.skeleton.size_eq ▸ hmirrors.peak, fun _ _ =>
      hmirrors.balanced hw' (hsame.trans hresolving)⟩

/-- Resolving is balanced. On every document whose nodes have types, cyclic ones included,
it has a value where it may go deeper than the document has nodes, and that is what loading
gives; the nodes being resolved are never more than the document has. Whenever the binding
of an output is resolved, after the outputs before it, no nodes are being resolved any more,
and those that are done are bound, lie on no cycle and have what they refer to done. -/
theorem resolveOutputs_balanced (resolver : Resolver) (d : Document) (pass : Pass)
    (written : WrittenPass) (r r' : Registry) (g : Graph) (depth : Nat)
    (hwritten : d.written? pass = some written)
    (hrun : (instantiate resolver d.name d.nodes.entries .empty).run r = (.ok g, r'))
    (hdepth : d.nodes.size < depth) :
    (∃ outcome s, (resolveOutputs d pass written depth Output.all).run { graph := g } =
        some (outcome, s) ∧
      s.peak ≤ d.nodes.size ∧
      ((loaded resolver d pass r).map (Option.map fun p => (Output.all.map p.output, p.graph))) =
        outcome.map fun targets => some (targets, s.graph)) ∧
    ∀ before targets s, (resolveOutputs d pass written depth before).run { graph := g } =
        some (.ok targets, s) →
      ∀ o b, written.output? o = some b →
        ∃ outcome s', (resolveBinding (resolveNode d.nodes.values depth)
            (pass.name ++ "." ++ o.key) b).run s = some (outcome, s') ∧
          s'.peak ≤ d.nodes.size ∧ ∀ target, outcome = .ok target → s'.Balanced d := by
  have hg : d.Skeleton (Registry.find resolver r) g := by
    rcases run_instantiate resolver d.name d.nodes.entries .empty r with
      ⟨nodes, r'', hrun', hnodes⟩ | ⟨f, r'', hrun', -⟩
    · cases hrun.symm.trans hrun'
      exact skeleton_of_instances hnodes
    · cases hrun.symm.trans hrun'
  refine ⟨?_, fun before targets s hs o b _ => ?_⟩
  · have htracks := tracks_resolveOutputs pass written hg hdepth Output.all
    have hmap (x : Outcome PassGraph) : (x.map some).map
        (Option.map fun p => (Output.all.map p.output, p.graph)) =
          (x.map fun p => (Output.all.map p.output, p.graph)).map some := by
      cases x <;> rfl
    rw [loaded_of_instances hwritten hrun, hmap, wireOutputs_map]
    cases heach : wireEach d pass written Output.all ⟨g, []⟩ with
    | error f =>
      rw [heach] at htracks
      obtain ⟨s', hrun, hpeak⟩ := htracks
      exact ⟨_, s', hrun, hg.size_eq ▸ hpeak, rfl⟩
    | ok result =>
      obtain ⟨targets, w⟩ := result
      rw [heach] at htracks
      obtain ⟨s', hrun, hmirrors, hresolving⟩ := htracks
      have hsize := (Resolution.Mirrors.start g).size_eq_of_resolving hmirrors hresolving
      refine ⟨_, s', hrun, ?_, ?_⟩
      · rw [← hg.size_eq]
        exact hsize ▸ hmirrors.peak
      · rw [hmirrors.graph]
        rfl
  · obtain ⟨w, hmirrors, hw, hresolving⟩ := exists_sound_of_resolveOutputs hg hdepth hs
    exact hmirrors.exists_resolved hw hresolving hdepth _ b

section Stacked

def mulType : NodeType :=
  ⟨"Mul", [⟨"a", .float4, none, 0⟩, ⟨"b", .float4, none, 1⟩], [⟨"r", .float4, none, -1⟩], none⟩

def mulTypes : Registry :=
  Table.empty.insert "Mul" mulType

def mulNode (a b : Document.WrittenBinding) : Document.WrittenNode :=
  ⟨"Mul", (Table.empty.insert "a" a).insert "b" b⟩

def topPass : WrittenPass where
  color := some { node := some "top" }

/-- A document with two nodes, one of which takes both of its inputs from the other. -/
def stacked : Document where
  name := "stacked"
  nodes := (Table.empty.insert "base" (mulNode { source := some "texture" }
    { source := some "color" })).insert "top" (mulNode { node := some "base" }
      { node := some "base" })
  passes := Table.empty.insert "Default" topPass

/-- A document with two nodes that take an input from each other. -/
def knotted : Document where
  name := "knotted"
  nodes := (Table.empty.insert "base" (mulNode { source := some "texture" }
    { node := some "top" })).insert "top" (mulNode { node := some "base" }
      { source := some "color" })
  passes := Table.empty.insert "Default" topPass

def mulGraph : Graph :=
  ⟨[.ofType "base" mulType, .ofType "top" mulType]⟩

theorem run_instantiate_stacked : (instantiate (ResourceTable.resolver {}) stacked.name
    stacked.nodes.entries .empty).run mulTypes = (.ok mulGraph, mulTypes) := rfl

theorem run_instantiate_knotted : (instantiate (ResourceTable.resolver {}) knotted.name
    knotted.nodes.entries .empty).run mulTypes = (.ok mulGraph, mulTypes) := rfl

/-- The node that both inputs refer to is resolved once; a cycle is found with both of its
nodes being resolved. -/
theorem resolveOutputs_balanced_stacked :
    (∃ s, (resolveBinding (resolveNode stacked.nodes.values 3)
        (Pass.default.name ++ "." ++ Output.color.key) { node := some "top" }).run
          { graph := mulGraph } = some (.ok (.output ⟨1, 0⟩), s) ∧
      s.done = [1, 0] ∧ s.peak = 2 ∧ s.Balanced stacked) ∧
    ∃ f s, (resolveOutputs knotted .default topPass 3 Output.all).run { graph := mulGraph } =
        some (.error f, s) ∧
      f.cause = .compile (.recursiveNode "top") ∧ s.resolving = [0, 1] ∧ s.peak ≤ 2 := by
  obtain ⟨-, hstacked⟩ := resolveOutputs_balanced (ResourceTable.resolver {}) stacked .default
    topPass mulTypes mulTypes mulGraph 3 rfl run_instantiate_stacked (by decide)
  obtain ⟨⟨outcome, s, hknotted, hpeak, -⟩, -⟩ := resolveOutputs_balanced
    (ResourceTable.resolver {}) knotted .default topPass mulTypes mulTypes mulGraph 3 rfl
    run_instantiate_knotted (by decide)
  obtain ⟨outcome', s', hrun, -, hbalanced⟩ :=
    hstacked [] [] { graph := mulGraph } rfl .color { node := some "top" } rfl
  refine ⟨⟨s', ?_⟩, ?_⟩
  · have hvalue : ((resolveBinding (resolveNode stacked.nodes.values 3)
        (Pass.default.name ++ "." ++ Output.color.key) { node := some "top" }).run
          { graph := mulGraph }).map (fun r => (r.1, r.2.done, r.2.peak)) =
            some (.ok (.output ⟨1, 0⟩), [1, 0], 2) := rfl
    rw [hrun, Option.map_some, Option.some_inj, Prod.mk.injEq, Prod.mk.injEq] at hvalue
    obtain ⟨rfl, hdone, hpeak⟩ := hvalue
    exact ⟨hrun, hdone, hpeak, hbalanced _ rfl⟩
  · have hvalue : ((resolveOutputs knotted .default topPass 3 Output.all).run
        { graph := mulGraph }).map (fun r => (r.1.mapError Failure.cause, r.2.resolving)) =
          some (.error (.compile (.recursiveNode "top")), [0, 1]) := rfl
    rw [hknotted, Option.map_some, Option.some_inj, Prod.mk.injEq] at hvalue
    obtain ⟨houtcome, hresolving⟩ := hvalue
    cases outcome with
    | error f => exact ⟨f, s, hknotted, Except.error.inj houtcome, hresolving, hpeak⟩
    | ok targets => cases houtcome

end Stacked

end MaterialGraph.PassGraph
