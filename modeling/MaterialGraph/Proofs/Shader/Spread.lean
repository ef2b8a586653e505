import MaterialGraph.Proofs.Mapping.Capacity
import MaterialGraph.Proofs.Shader.Passes
import MaterialGraph.Proofs.Text.Number

/-!
Documents for given leaves. One node has an input for each of them and gives the color,
and one more leaf gives the depth. Main statements: such a document is loaded, and its pass
depends on exactly the leaves given, however many they are; within limits that are wide
enough it is mapped and has a body.
-/

namespace MaterialGraph

open Relation (TransGen)
open Document (WrittenBinding WrittenNode WrittenPass)

namespace PassGraph

/-- A type with a number of inputs, which are named by their positions. -/
def spreadType (inputs : Nat) : NodeType where
  name := "Spread"
  inputs := (List.range inputs).map fun k : Nat => ⟨toString k, .float4, none, k⟩
  outputs := [⟨"r", .float4, none, returnRegister⟩]
  aliasName := none

def spreadTypes (inputs : Nat) : Registry :=
  Table.empty.insert "Spread" (spreadType inputs)

def spreadEntries (leaves : List Leaf) : List (String × WrittenBinding) :=
  leaves.zipIdx.map fun e => (toString e.2, .ofLeaf e.1)

def spreadNode (leaves : List Leaf) : WrittenNode :=
  ⟨"Spread", Table.ofList (spreadEntries leaves)⟩

def spreadOutputs (depth : Leaf) : WrittenPass where
  color := some { node := some "spread" }
  depth := some (.ofLeaf depth)

/-- A document whose only pass reads some leaves through a node and another one directly. -/
def spread (depth : Leaf) (leaves : List Leaf) : Document where
  name := "spread"
  nodes := Table.empty.insert "spread" (spreadNode leaves)
  passes := Table.empty.insert "Fullbright" (spreadOutputs depth)

variable {leaves : List Leaf} {depth l : Leaf} {k : Nat} {types : String → Outcome NodeType}

section Written

theorem mem_spreadEntries {e : String × WrittenBinding} :
    e ∈ spreadEntries leaves ↔
      ∃ (k : Nat) (l : Leaf), leaves[k]? = some l ∧ e = (toString k, .ofLeaf l) := by
  simp only [spreadEntries, List.mem_map, Prod.exists, List.mem_zipIdx_iff_getElem?,
    eq_comm (a := e)]
  exact exists_comm

/-- The binding that is written for the input at a position is that of the leaf there. -/
theorem get?_spreadNode_iff {b : WrittenBinding} :
    (spreadNode leaves).inputs.get? (toString k) = some b ↔
      ∃ l, leaves[k]? = some l ∧ b = .ofLeaf l := by
  constructor
  · intro h
    obtain ⟨j, l, hl, heq⟩ := mem_spreadEntries.1 (Table.mem_of_get?_ofList h)
    obtain ⟨hname, rfl⟩ := Prod.mk.inj heq
    exact ⟨l, toString_inj.1 hname ▸ hl, rfl⟩
  · rintro ⟨l, hl, rfl⟩
    refine Table.get?_ofList_of_mem (mem_spreadEntries.2 ⟨k, l, hl, rfl⟩) fun e he hname => ?_
    obtain ⟨j, l', hl', rfl⟩ := mem_spreadEntries.1 he
    obtain rfl : j = k := toString_inj.1 hname
    rw [Option.some.inj (hl'.symm.trans hl)]

theorem exists_ofLeaf_of_mem {e : String × WrittenBinding}
    (he : e ∈ (spreadNode leaves).inputs.entries) : ∃ l, e.2 = .ofLeaf l := by
  obtain ⟨k, l, -, heq⟩ := mem_spreadEntries.1
    (Table.mem_of_get?_ofList (Table.get?_eq_some_iff.2 he))
  exact ⟨l, (Prod.mk.inj heq).2⟩

theorem contains_spreadNode_iff {key : String} :
    (spreadNode leaves).inputs.contains key ↔
      key ∈ (spreadType leaves.length).inputs.map Pin.name := by
  have hnames : (spreadType leaves.length).inputs.map Pin.name =
      (List.range leaves.length).map toString := by
    rw [spreadType, List.map_map]
    rfl
  rw [hnames, List.mem_map, Table.contains, Option.isSome_iff_exists]
  constructor
  · rintro ⟨b, hb⟩
    obtain ⟨k, l, hl, heq⟩ := mem_spreadEntries.1 (Table.mem_of_get?_ofList hb)
    exact ⟨k, List.mem_range.2 (List.getElem?_eq_some_iff.1 hl).1, (Prod.mk.inj heq).1.symm⟩
  · rintro ⟨k, hk, rfl⟩
    have hl := List.getElem?_eq_getElem (List.mem_range.1 hk)
    exact ⟨_, get?_spreadNode_iff.2 ⟨_, hl, rfl⟩⟩

theorem spread_get? {name : String} {n : WrittenNode}
    (h : (spread depth leaves).nodes.get? name = some n) :
    name = "spread" ∧ n = spreadNode leaves := by
  have hmem := Table.get?_eq_some_iff.1 h
  change (name, n) ∈ [_] at hmem
  exact Prod.mk.inj (List.mem_singleton.1 hmem)

theorem spread_not_refers (x y : String) : ¬(spread depth leaves).Refers x y := by
  rintro ⟨n, hn, e, he, output, hb⟩
  obtain ⟨-, rfl⟩ := spread_get? hn
  obtain ⟨l, hl⟩ := exists_ofLeaf_of_mem he
  rw [hl, WrittenBinding.classify_ofLeaf] at hb
  cases hb

variable (ht : types "Spread" = .ok (spreadType leaves.length))
include ht

theorem spread_stands :
    (spread depth leaves).Stands types { node := some "spread" } (.output ⟨0, 0⟩) :=
  .output rfl rfl ht rfl

theorem spread_loadable : (spread depth leaves).Loadable types (spreadOutputs depth) := by
  refine ⟨fun e he => ?known, fun o b hb => ?outputs, fun o b ref hb href => ?samplers,
    fun name _ => ⟨?stands, ?keys, ?acyclic⟩⟩
  case known =>
    change e ∈ [_] at he
    obtain rfl := List.mem_singleton.1 he
    exact ⟨_, ht⟩
  case outputs =>
    cases o <;> cases hb
    · exact ⟨_, spread_stands ht⟩
    · exact ⟨_, .leaf (WrittenBinding.classify_ofLeaf depth)⟩
  case samplers =>
    cases o <;> cases hb
    · cases href.unique (spread_stands ht)
      rintro ⟨name, n, t, pin, hentry, ht', hpin, hsampler⟩
      cases hentry
      cases ht'.symm.trans ht
      cases hpin
      cases hsampler
    · cases href.unique (.leaf (WrittenBinding.classify_ofLeaf depth))
  case stands =>
    intro n hn e he
    obtain ⟨-, rfl⟩ := spread_get? hn
    obtain ⟨l, hl⟩ := exists_ofLeaf_of_mem he
    rw [hl]
    exact ⟨_, .leaf (WrittenBinding.classify_ofLeaf l)⟩
  case keys =>
    intro n t hn ht' key
    obtain ⟨-, rfl⟩ := spread_get? hn
    cases ht'.symm.trans ht
    exact contains_spreadNode_iff
  case acyclic =>
    intro hcycle
    obtain ⟨x, -, hx⟩ := TransGen.tail'_iff.1 hcycle
    exact spread_not_refers _ _ hx

end Written

section Loaded

variable {p : PassGraph}
  (hbound : (spread depth leaves).BoundAsWritten types (spreadOutputs depth) p)
  (ht : types "Spread" = .ok (spreadType leaves.length))
include hbound ht

theorem spread_node_eq {n : Node} (hn : n ∈ p.graph.nodes) :
    n.name = "spread" ∧ n.type = spreadType leaves.length ∧ n.inputs.length = leaves.length := by
  obtain ⟨e, he, hname, htype, hlength⟩ := hbound.nodes.flip.exists_mem _ hn
  change e ∈ [_] at he
  obtain rfl := List.mem_singleton.1 he
  have heq : n.type = spreadType leaves.length := Except.ok.inj (htype.symm.trans ht)
  refine ⟨hname, heq, ?_⟩
  rw [hlength, heq, spreadType, List.length_map, List.length_range]

/-- The inputs of the node are bound to the leaves, in their order. -/
theorem spread_inputs_eq {n : Node} (hn : n ∈ p.graph.nodes) : n.inputs = leaves.map .leaf := by
  obtain ⟨hname, htype, hlength⟩ := spread_node_eq hbound ht hn
  have hreached : (spread depth leaves).Reaches (spreadOutputs depth) n.name :=
    ⟨.color, _, "spread", rfl, ⟨_, rfl⟩, hname ▸ .refl⟩
  refine List.ext_getElem (hlength.trans (List.length_map _).symm) fun k hk _ => ?_
  have hpin : n.type.inputs[k]? = some ⟨toString k, .float4, none, k⟩ := by
    simp [htype, spreadType, hlength ▸ hk]
  obtain ⟨written, b, target, hwritten, hb, htarget, hstands⟩ :=
    hbound.reached n hn hreached k _ hpin
  obtain ⟨-, rfl⟩ := spread_get? hwritten
  obtain ⟨l, hl, rfl⟩ := get?_spreadNode_iff.1 hb
  have hsame : target = .leaf l := hstands.unique (.leaf (WrittenBinding.classify_ofLeaf l))
  rw [(List.getElem?_eq_some_iff.1 htarget).2, hsame, List.getElem_map,
    (List.getElem?_eq_some_iff.1 hl).2]

theorem leaf_mem_inputs_iff {n : Node} (hn : n ∈ p.graph.nodes) :
    .leaf l ∈ n.inputs ↔ l ∈ leaves := by
  simp [spread_inputs_eq hbound ht hn]

theorem spread_liveLeaf_iff : p.LiveLeaf l ↔ l ∈ depth :: leaves := by
  have hcolor : p.output .color = .output ⟨0, 0⟩ :=
    (hbound.written .color _ rfl).unique (spread_stands ht)
  have hdepth : p.output .depth = .leaf depth :=
    (hbound.written .depth _ rfl).unique (.leaf (WrittenBinding.classify_ofLeaf depth))
  constructor
  · rintro (⟨o, ho⟩ | ⟨id, n, -, hn, hmem⟩)
    · cases o
      · cases hcolor.symm.trans ho
      · cases (hbound.absent .alpha rfl).symm.trans ho
      · cases hdepth.symm.trans ho
        exact List.mem_cons_self
    · exact List.mem_cons_of_mem _
        ((leaf_mem_inputs_iff hbound ht (List.mem_of_getElem? hn)).1 hmem)
  · rw [List.mem_cons]
    rintro (rfl | hl)
    · exact .inl ⟨.depth, hdepth⟩
    · obtain ⟨n, hn, -⟩ := hbound.nodes.exists_getElem? 0 _ rfl
      exact .inr ⟨0, n, live_of_output hcolor, hn,
        (leaf_mem_inputs_iff hbound ht (List.mem_of_getElem? hn)).2 hl⟩

end Loaded

/-- Whatever the leaves, the document for them is loaded and its pass depends on them
and on no others. -/
theorem run_load_spread (resolver : Resolver) (depth : Leaf) (leaves : List Leaf) :
    ∃ p r', (load resolver (spread depth leaves) .fullbright).run (spreadTypes leaves.length) =
        (.ok (some p), r') ∧
      p.pass = .fullbright ∧ p.depth = .leaf depth ∧
      ∀ l, p.LiveLeaf l ↔ l ∈ depth :: leaves := by
  have ht : Registry.find resolver (spreadTypes leaves.length) "Spread" =
      .ok (spreadType leaves.length) := rfl
  have hwritten : (spread depth leaves).written? .fullbright = some (spreadOutputs depth) := rfl
  rcases loaded_cases resolver (spreadTypes leaves.length) hwritten with
    ⟨p, hp, hpass, hbound, -⟩ | ⟨f, -, hnot, -⟩
  · have hdepth : p.output .depth = .leaf depth :=
      (hbound.written .depth _ rfl).unique (.leaf (WrittenBinding.classify_ofLeaf depth))
    exact ⟨p, _, Prod.ext hp rfl, hpass, hdepth, fun l => spread_liveLeaf_iff hbound ht⟩
  · exact absurd (spread_loadable ht) hnot

end PassGraph

namespace Shader

open PassGraph (spread spreadTypes run_load_spread)

/-- Leaves of which none is a texture coordinate or a sprite skin are compiled for every
variant and material, if the limits leave room for them. -/
theorem exists_load_spread (resolver : Resolver) (depth : Leaf) (leaves : List Leaf)
    (hleaves : ∀ l ∈ depth :: leaves, l.source ≠ .texCoord ∧ l.source ≠ .spriteSkin)
    (v : Variant) (material : Material) :
    ∃ s p r' m t body, (load resolver .ample (spread depth leaves) v).run
        (spreadTypes leaves.length) = (.ok s, r') ∧
      s.pass? .fullbright = some p ∧ (∀ l, p.graph.LiveLeaf l ↔ l ∈ depth :: leaves) ∧
      s.mappings material .fullbright .ample = .ok (m, t) ∧
      s.body material .fullbright .ample = .ok body ∧
      ∀ text, (Accessors.mk p.usage m t).text depth = .ok text →
        .assign .depth (.text text) ∈ body := by
  obtain ⟨g, r', hgraph, hpass, hdepth, hlive⟩ := run_load_spread resolver depth leaves
  obtain ⟨-, hsound⟩ := PassGraph.sound_of_loaded (congrArg Prod.fst hgraph)
  have hnone : ∀ i, i ∉ g.usage.indices .texCoord := by
    intro i hi
    have hlist := (hlive ⟨.texCoord, i⟩).1 ((PassGraph.has_usage_iff hsound.toLinked).1 hi)
    exact (hleaves _ hlist).1 rfl
  let v' := resolveVariant (spread depth leaves) v
  have hfits : Mapping.Fits g.usage g.pass v' material .ample := Mapping.fits_ample hnone
  obtain ⟨b, hbase⟩ := Mapping.exists_base hfits.lights hfits.textures hfits.attributes
  obtain ⟨m, t, hfull⟩ := Mapping.exists_full hfits.registers hbase hfits.channels
  have hpasses : (spread depth leaves).passes =
      Table.empty.insert Pass.fullbright.name (PassGraph.spreadOutputs depth) := rfl
  have hload := load_of_single (l := .ample) (v := v) hpasses (by decide) (by decide) hgraph
    (analyse_of_base hbase)
  let s : Shader := ⟨spread depth leaves, v', addTypes .empty g, [⟨g, g.usage, b⟩]⟩
  have hp : s.pass? .fullbright = some ⟨g, g.usage, b⟩ :=
    List.find?_cons_of_pos (by simpa using hpass)
  have hmap : s.mappings material .fullbright .ample = .ok (m, t) := mappings_of_full hp hfull
  rcases Body.ofPass_cases hsound (Accessors.mk g.usage m t).text with
    ⟨body, hbody, -⟩ | ⟨l, f, hl, hfails, -⟩
  · refine ⟨s, _, r', m, t, body, hload, hp, hlive, hmap, body_of_ofPass hp hmap hbody, ?_⟩
    exact fun text htext => Body.assign_depth_mem hbody hdepth htext
  · obtain ⟨hskin, -⟩ := (Body.text_of_liveLeaf hsound hbase hfull hl).2 f hfails
    exact absurd hskin (hleaves l ((hlive l).1 hl)).2

/-- The leaves of a source, one for each index. -/
def everyIndex (source : MaterialSource) : List Leaf :=
  (List.range 256).map fun k => ⟨source, UInt8.ofNat k⟩

theorem length_everyIndex (source : MaterialSource) : (everyIndex source).length = 256 := by
  rw [everyIndex, List.length_map, List.length_range]

theorem mem_everyIndex (source : MaterialSource) (i : UInt8) : ⟨source, i⟩ ∈ everyIndex source :=
  List.mem_map.2 ⟨i.toNat, List.mem_range.2 i.toNat_lt, by rw [UInt8.ofNat_toNat]⟩

theorem source_of_mem_everyIndex {source : MaterialSource} {l : Leaf} (h : l ∈ everyIndex source) :
    l.source = source := by
  obtain ⟨k, -, rfl⟩ := List.mem_map.1 h
  rfl

/-- So a shader may read a source by all its indices. -/
theorem exists_load_everyIndex (resolver : Resolver) (depth : Leaf)
    (hdepth : depth.source ≠ .texCoord ∧ depth.source ≠ .spriteSkin) (source : MaterialSource)
    (hsource : source ≠ .texCoord ∧ source ≠ .spriteSkin) (v : Variant) (material : Material) :
    ∃ s p r' m t body, (load resolver .ample (spread depth (everyIndex source)) v).run
        (spreadTypes 256) = (.ok s, r') ∧
      s.pass? .fullbright = some p ∧ p.graph.LiveLeaf depth ∧
      s.mappings material .fullbright .ample = .ok (m, t) ∧
      s.body material .fullbright .ample = .ok body ∧ (∀ i, i ∈ p.usage.indices source) ∧
      ∀ text, (Accessors.mk p.usage m t).text depth = .ok text →
        .assign .depth (.text text) ∈ body := by
  have hleaves : ∀ l ∈ depth :: everyIndex source,
      l.source ≠ .texCoord ∧ l.source ≠ .spriteSkin :=
    List.forall_mem_cons.2 ⟨hdepth, fun l hl => source_of_mem_everyIndex hl ▸ hsource⟩
  obtain ⟨s, p, r', m, t, body, hload, hp, hlive, hmap, hbody, hassign⟩ :=
    exists_load_spread resolver depth (everyIndex source) hleaves v material
  rw [length_everyIndex] at hload
  obtain ⟨hsound, husage, -⟩ := analysed_of_load hload p (mem_of_pass? hp)
  refine ⟨s, p, r', m, t, body, hload, hp, (hlive _).2 List.mem_cons_self, hmap, hbody,
    fun i => ?_, hassign⟩
  rw [husage]
  exact (PassGraph.has_usage_iff hsound.toLinked).2
    ((hlive _).2 (List.mem_cons_of_mem _ (mem_everyIndex source i)))

end Shader

end MaterialGraph
