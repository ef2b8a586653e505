import MaterialGraph.Proofs.Graph.Descent
import MaterialGraph.Proofs.PassGraph.Sound

/-!
The sampler type of a texture: that of the first sampler pin which reads it. Main
statement: every order of a node's inputs meets the same pins, so the order matters
only to a texture that live nodes read as different sampler types; for such a texture
the type is the one met by the walk that takes the leaves of a node before its
producers and the last producer first.
-/

namespace MaterialGraph

/-- Whether a texture is read through a sampler pin. -/
def Samples (index : UInt8) (e : Leaf × Pin) : Prop :=
  e.1 = ⟨.texture, index⟩ ∧ e.2.type.isSampler

instance (index : UInt8) : DecidablePred (Samples index) := fun _ =>
  inferInstanceAs (Decidable (_ ∧ _))

/-- The type of the first pin that samples a texture, two-dimensional if no pin does. -/
def samplerOf (index : UInt8) (met : List (Leaf × Pin)) : BasicType :=
  ((met.find? fun e => Samples index e).map fun e => e.2.type).getD .sampler2D

/-- If all pins that sample a texture have one type, the order of the pins does not matter. -/
theorem samplerOf_congr {index : UInt8} {met met' : List (Leaf × Pin)}
    (hmem : ∀ e, e ∈ met ↔ e ∈ met')
    (hagree : ∀ e ∈ met, ∀ e' ∈ met, Samples index e → Samples index e' → e.2.type = e'.2.type) :
    samplerOf index met = samplerOf index met' := by
  unfold samplerOf
  cases hfind : met.find? fun e => Samples index e with
  | none =>
    have hnone : (met'.find? fun e => Samples index e) = none := by
      rw [List.find?_eq_none] at hfind ⊢
      intro e he
      exact hfind e ((hmem e).2 he)
    rw [hnone]
  | some e =>
    have he : e ∈ met := List.mem_of_find?_eq_some hfind
    have hsamples : Samples index e := by simpa using List.find?_some hfind
    cases hfind' : met'.find? fun e => Samples index e with
    | none =>
      have hnot := List.find?_eq_none.1 hfind' e ((hmem e).1 he)
      exact absurd (decide_eq_true hsamples) hnot
    | some e' =>
      have he' : e' ∈ met := (hmem e').2 (List.mem_of_find?_eq_some hfind')
      have hsamples' : Samples index e' := by simpa using List.find?_some hfind'
      exact hagree e he e' he' hsamples hsamples'

namespace Usage

variable {u : Usage} {index : UInt8}

theorem lookup_append_singleton (types : List (UInt8 × BasicType)) (index' : UInt8)
    (type : BasicType) : (types ++ [(index', type)]).lookup index =
      (types.lookup index).or (if index = index' then some type else none) := by
  rw [List.lookup_append]
  by_cases hindex : index = index'
  · simp [hindex]
  · simp [List.lookup_cons, beq_false_of_ne hindex, hindex]

/-- A type is recorded for a texture unless one was recorded before. -/
theorem lookup_addTextureType (e : Leaf × Pin) :
    ((u.add e.1).addTextureType e.1 e.2.type).textureTypes.lookup index =
      (u.textureTypes.lookup index).or (if Samples index e then some e.2.type else none) := by
  obtain ⟨⟨source, index'⟩, pin⟩ := e
  unfold addTextureType
  split
  · next hrecorded =>
    obtain ⟨hsource, hsampler, -⟩ := hrecorded
    have hsamples : Samples index (⟨source, index'⟩, pin) ↔ index = index' := by
      simp [Samples, show source = .texture from hsource, show pin.type.isSampler from hsampler,
        eq_comm]
    simp only [lookup_append_singleton, hsamples]
    rfl
  · next hnot =>
    by_cases hsamples : Samples index (⟨source, index'⟩, pin)
    · obtain ⟨hleaf, hsampler⟩ := hsamples
      cases hleaf
      cases hlookup : u.textureTypes.lookup index with
      | none => exact absurd ⟨rfl, hsampler, by simp [add, hlookup]⟩ hnot
      | some type => exact hlookup
    · rw [if_neg hsamples, Option.or_none]
      rfl

theorem lookup_foldl_input (met : List (Leaf × Pin)) :
    (met.foldl (fun u e => (u.add e.1).addTextureType e.1 e.2.type) u).textureTypes.lookup index =
      (u.textureTypes.lookup index).or
        ((met.find? fun e => Samples index e).map fun e => e.2.type) := by
  induction met generalizing u with
  | nil => simp
  | cons e rest ih =>
    rw [List.foldl_cons, ih, lookup_addTextureType, Option.or_assoc, List.find?_cons]
    by_cases hsamples : Samples index e <;> simp [hsamples]

theorem textureTypes_ofLeaves (leaves : List Leaf) : (ofLeaves leaves).textureTypes = [] := by
  suffices h : ∀ u : Usage, (leaves.foldl add u).textureTypes = u.textureTypes from h empty
  intro u
  induction leaves generalizing u with
  | nil => rfl
  | cons l rest ih => exact ih (u.add l)

end Usage

namespace PassGraph

variable {p : PassGraph} {order : Node → List Stop} {met : List (Leaf × Pin)} {e : Leaf × Pin}

/-- What the walk from the outputs of a pass meets, in the order of the outputs. -/
def Meets (p : PassGraph) (order : Node → List Stop) (met : List (Leaf × Pin)) : Prop :=
  ∃ left, p.graph.Meets order p.graph.ids (p.starts.map .node) met left

/-- Whether a leaf feeds a pin of a live node. -/
def Consumes (p : PassGraph) (e : Leaf × Pin) : Prop :=
  ∃ id n, p.Live id ∧ p.graph.node? id = some n ∧ e ∈ n.leaves

/-- Whether the pins of live nodes that sample a texture have one type. -/
def SamplersAgree (p : PassGraph) (index : UInt8) : Prop :=
  ∀ e e', p.Consumes e → p.Consumes e' → Samples index e → Samples index e' →
    e.2.type = e'.2.type

/-- Whether the inputs of live nodes are declared as the walk with a stack takes them: the
leaves before the producers, and these in an order that is its own reverse. -/
def LeavesFirst (p : PassGraph) : Prop :=
  ∀ id n, p.Live id → p.graph.node? id = some n → n.stops = n.stopsLeavesFirst

/-- Whether a texture has the type of the first pin that samples it, where a walk
takes the inputs of a node as they are declared. -/
def TypedByFirst (p : PassGraph) (index : UInt8) : Prop :=
  ∀ met, p.Meets Node.stops met → p.usage.textureType index = samplerOf index met

theorem Meets.unique {met' : List (Leaf × Pin)} (h : p.Meets order met) (h' : p.Meets order met') :
    met = met' := by
  obtain ⟨left, hmeets⟩ := h
  obtain ⟨left', hmeets'⟩ := h'
  exact (hmeets.unique hmeets').1

theorem exists_meets (p : PassGraph) (order : Node → List Stop) : ∃ met, p.Meets order met :=
  Graph.Meets.total p.graph order p.graph.ids (p.starts.map .node)

theorem meets_inputLeaves (p : PassGraph) : p.Meets Node.stopsLeavesFirst p.inputLeaves :=
  p.graph.meets_walkFrom p.graph.ids p.starts List.nodup_range

theorem textureType_usage (p : PassGraph) (index : UInt8) :
    p.usage.textureType index = samplerOf index p.inputLeaves := by
  unfold usage Usage.textureType
  rw [Usage.lookup_foldl_input, Usage.textureTypes_ofLeaves]
  rfl

theorem live_of_node_mem_starts {id : Nat} (h : .node id ∈ p.starts.map Stop.node) :
    p.Live id := by
  obtain ⟨start, hstart, heq⟩ := List.mem_map.1 h
  cases heq
  obtain ⟨o, ref, ho, rfl⟩ := mem_starts_iff.1 hstart
  exact live_of_output ho

theorem live_of_node_mem_stopsAt (h : p.graph.Lists order) :
    ∀ id, p.Live id → ∀ a, .node a ∈ p.graph.stopsAt order id → p.Live a :=
  fun _ hlive _ ha => hlive.feeder (h.node_mem_iff.1 ha)

/-- In whichever order a walk takes the inputs, it meets what feeds the live nodes. -/
theorem Meets.mem_iff (h : p.Meets order met) (horder : p.graph.Lists order) :
    e ∈ met ↔ p.Consumes e := by
  obtain ⟨left, hmeets⟩ := h
  constructor
  · intro he
    have hfound := hmeets.of_mem (live_of_node_mem_stopsAt horder)
      (fun id => live_of_node_mem_starts) he
    rcases hfound with hmem | ⟨id, hlive, hmem⟩
    · simp at hmem
    · obtain ⟨n, hn, hleaves⟩ := horder.leaf_mem_iff.1 hmem
      exact ⟨id, n, hlive, hn, hleaves⟩
  · intro he
    obtain ⟨id, n, hlive, hn, hleaves⟩ := he
    have hexhausts := hmeets.exhausts List.nodup_range
    have hinside : ∀ b m, p.graph.node? b = some m → b ∉ left →
        ∀ stop ∈ p.graph.stopsAt order b, Graph.Meets.Been met left stop :=
      fun b m hm => hexhausts.inside b (List.mem_range.2 (Graph.node?_lt hm))
    -- Nothing that the outputs depend on is left, so its leaves were met.
    have hleft : id ∉ left := by
      refine hlive.mem_of_closed (S := (· ∉ left)) (fun o ref ho => ?_) fun a b hab hb => ?_
      · have hstart : ref.node ∈ p.starts := mem_starts_iff.2 ⟨o, ref, ho, rfl⟩
        exact hexhausts.stops (.node ref.node) (List.mem_map_of_mem hstart)
      · have hfeeds := hab
        obtain ⟨m, hm, -⟩ := hfeeds
        exact hinside b m hm hb (.node a) (horder.node_mem_iff.2 hab)
    exact hinside id n hn hleft (.leaf e.1 e.2) (horder.leaf_mem_iff.2 ⟨n, hn, hleaves⟩)

theorem Meets.leavesFirst (h : p.Meets Node.stops met) (hlinked : p.Linked)
    (hfirst : p.LeavesFirst) : p.Meets Node.stopsLeavesFirst met := by
  obtain ⟨left, hmeets⟩ := h
  refine ⟨left, hmeets.congr (live_of_node_mem_stopsAt hlinked.wellWired.lists_stops)
    (fun id => live_of_node_mem_starts) fun id hlive => ?_⟩
  unfold Graph.stopsAt
  cases hn : p.graph.node? id with
  | none => rfl
  | some n => exact hfirst id n hlive hn

/-- The type of a texture is that of the first pin which samples it, as the walk with a
stack meets the pins. The order in which the inputs are declared gives the same if the
pins agree, or if it leaves the walk no other order. -/
theorem textureType_exact (p : PassGraph) (hbuilt : p.graph.Built)
    (hslots : ∀ o ref, p.output o = .output ref → p.graph.HasOutput ref) (index : UInt8) :
    (∃ declared, (∀ met, p.Meets Node.stops met ↔ met = declared) ∧
        ∀ e, e ∈ declared ↔ p.Consumes e) ∧
      (∀ met, p.Meets Node.stopsLeavesFirst met ↔ met = p.inputLeaves) ∧
      (∀ e, e ∈ p.inputLeaves ↔ p.Consumes e) ∧
      p.usage.textureType index = samplerOf index p.inputLeaves ∧
      (p.SamplersAgree index → p.TypedByFirst index) ∧ (p.LeavesFirst → p.TypedByFirst index) := by
  have hlinked : p.Linked := ⟨hbuilt.wellWired, hslots⟩
  have hlists := hlinked.wellWired.lists_stops
  have hexact : ∀ {order met}, p.Meets order met → ∀ met', p.Meets order met' ↔ met' = met :=
    fun h met' => ⟨fun h' => h'.unique h, fun heq => heq ▸ h⟩
  have hinputs (e : Leaf × Pin) : e ∈ p.inputLeaves ↔ p.Consumes e :=
    p.meets_inputLeaves.mem_iff p.graph.lists_stopsLeavesFirst
  obtain ⟨declared, hdeclared⟩ := p.exists_meets Node.stops
  refine ⟨⟨declared, hexact hdeclared, fun e => hdeclared.mem_iff hlists⟩,
    hexact p.meets_inputLeaves, hinputs, p.textureType_usage index, ?_, ?_⟩
  · intro hagree met hmet
    rw [textureType_usage]
    refine samplerOf_congr (fun e => (hinputs e).trans (hmet.mem_iff hlists).symm) ?_
    intro e he e' he'
    exact hagree e e' ((hinputs e).1 he) ((hinputs e').1 he')
  · intro hfirst met hmet
    rw [textureType_usage, (hmet.leavesFirst hlinked hfirst).unique p.meets_inputLeaves]

/-- Two nodes that feed the color sample texture 0 as different types and texture 1 as
the same type. -/
def disputed : PassGraph where
  pass := .default
  graph := ⟨[
    { name := "flat"
      type := ⟨"Flat", [⟨"env", .samplerCube, none, 1⟩, ⟨"tex", .sampler2D, none, 0⟩],
        [⟨"r", .float4, none, -1⟩], none⟩
      inputs := [.leaf ⟨.texture, 1⟩, .leaf ⟨.texture, 0⟩]
      consumers := [[⟨2, 0⟩]] },
    { name := "round"
      type := ⟨"Round", [⟨"env", .samplerCube, none, 1⟩, ⟨"tex", .samplerCube, none, 0⟩],
        [⟨"r", .float4, none, -1⟩], none⟩
      inputs := [.leaf ⟨.texture, 1⟩, .leaf ⟨.texture, 0⟩]
      consumers := [[⟨2, 1⟩]] },
    { name := "sum"
      type := ⟨"Sum", [⟨"a", .float4, none, 0⟩, ⟨"b", .float4, none, 1⟩],
        [⟨"r", .float4, none, -1⟩], none⟩
      inputs := [.output ⟨0, 0⟩, .output ⟨1, 0⟩]
      consumers := [[]] }]⟩
  color := .output ⟨2, 0⟩

theorem disputed_built : disputed.graph.Built := by
  have flat := Graph.Built.instantiate "flat" (disputed.graph.nodes[0]).type .empty
  have round := Graph.Built.instantiate "round" (disputed.graph.nodes[1]).type flat
  have sum := Graph.Built.instantiate "sum" (disputed.graph.nodes[2]).type round
  have flatEnv := Graph.Built.bindLeaf (i := ⟨0, 0⟩) (l := ⟨.texture, 1⟩) sum rfl
  have flatTex := Graph.Built.bindLeaf (i := ⟨0, 1⟩) (l := ⟨.texture, 0⟩) flatEnv rfl
  have roundEnv := Graph.Built.bindLeaf (i := ⟨1, 0⟩) (l := ⟨.texture, 1⟩) flatTex rfl
  have roundTex := Graph.Built.bindLeaf (i := ⟨1, 1⟩) (l := ⟨.texture, 0⟩) roundEnv rfl
  have first := Graph.Built.connect (o := ⟨0, 0⟩) (i := ⟨2, 0⟩) roundTex rfl
  exact .connect (o := ⟨1, 0⟩) (i := ⟨2, 1⟩) first rfl

theorem disputed_slots (o : Output) (ref : OutputRef) (ho : disputed.output o = .output ref) :
    disputed.graph.HasOutput ref := by
  cases o with
  | color =>
    cases ho
    exact ⟨_, rfl, by decide⟩
  | alpha => cases ho
  | depth => cases ho

theorem disputed_node {id : Nat} {n : Node} (hn : disputed.graph.node? id = some n) :
    (id = 0 ∧ n = disputed.graph.nodes[0]) ∨ (id = 1 ∧ n = disputed.graph.nodes[1]) ∨
      id = 2 ∧ n = disputed.graph.nodes[2] := by
  have hlt : id < 3 := Graph.node?_lt hn
  obtain rfl | rfl | rfl : id = 0 ∨ id = 1 ∨ id = 2 := by omega
  · exact .inl ⟨rfl, Option.some.inj hn.symm⟩
  · exact .inr (.inl ⟨rfl, Option.some.inj hn.symm⟩)
  · exact .inr (.inr ⟨rfl, Option.some.inj hn.symm⟩)

theorem disputed_sound : disputed.Sound where
  wellWired := disputed_built.wellWired
  outputs := disputed_slots
  acyclic id _ := by
    refine Graph.not_transGen_of_lt (fun a b hab => ?_) id
    obtain ⟨n, hn, ref, href, rfl⟩ := hab
    rcases disputed_node hn with ⟨rfl, rfl⟩ | ⟨rfl, rfl⟩ | ⟨rfl, rfl⟩
    · simp [disputed] at href
    · simp [disputed] at href
    · simp [disputed] at href
      rcases href with rfl | rfl <;> decide
  bound id n _ hn := by
    rcases disputed_node hn with ⟨-, rfl⟩ | ⟨-, rfl⟩ | ⟨-, rfl⟩ <;> decide

theorem disputed_inputLeaves : disputed.inputLeaves =
    [(⟨.texture, 1⟩, ⟨"env", .samplerCube, none, 1⟩),
      (⟨.texture, 0⟩, ⟨"tex", .samplerCube, none, 0⟩),
      (⟨.texture, 1⟩, ⟨"env", .samplerCube, none, 1⟩),
      (⟨.texture, 0⟩, ⟨"tex", .sampler2D, none, 0⟩)] := by
  have hflat : (disputed.graph.node? 0).elim [] Node.producers = [] := rfl
  have hround : (disputed.graph.node? 1).elim [] Node.producers = [] := rfl
  have hsum : (disputed.graph.node? 2).elim [] Node.producers = [0, 1] := rfl
  have hvisits : disputed.visits = [2, 1, 0] := by
    change disputed.graph.walk [0, 1, 2] [2] ++ [] = _
    simp [Graph.walk, hflat, hround, hsum]
  rw [inputLeaves, hvisits]
  rfl

theorem disputed_meets : disputed.Meets Node.stops
    [(⟨.texture, 1⟩, ⟨"env", .samplerCube, none, 1⟩),
      (⟨.texture, 0⟩, ⟨"tex", .sampler2D, none, 0⟩),
      (⟨.texture, 1⟩, ⟨"env", .samplerCube, none, 1⟩),
      (⟨.texture, 0⟩, ⟨"tex", .samplerCube, none, 0⟩)] := by
  have hflat : disputed.graph.Meets Node.stops [1] (disputed.graph.stopsAt Node.stops 0)
      (disputed.graph.leavesAt 0) [1] := .leaf _ _ (.leaf _ _ (.nil [1]))
  have hround : disputed.graph.Meets Node.stops [] (disputed.graph.stopsAt Node.stops 1)
      (disputed.graph.leavesAt 1) [] := .leaf _ _ (.leaf _ _ (.nil []))
  have hsum : disputed.graph.Meets Node.stops [0, 1] (disputed.graph.stopsAt Node.stops 2)
      (disputed.graph.leavesAt 0 ++ (disputed.graph.leavesAt 1 ++ [])) [] :=
    .enter (by decide) hflat (.enter (by decide) hround (.nil []))
  have hcolor : disputed.graph.Meets Node.stops [0, 1, 2] [.node 2] _ [] :=
    .enter (by decide) hsum (.nil [])
  exact ⟨[], hcolor⟩

theorem textureType_exact_disputed :
    disputed.graph.Built ∧
      (∀ o ref, disputed.output o = .output ref → disputed.graph.HasOutput ref) ∧
      disputed.usage.textureType 0 = .samplerCube ∧ disputed.SamplersAgree 1 ∧
      disputed.TypedByFirst 1 ∧ disputed.usage.textureType 1 = .samplerCube := by
  have hexact := textureType_exact disputed disputed_built disputed_slots
  obtain ⟨-, -, -, hdisputed, -⟩ := hexact 0
  obtain ⟨-, -, hmem, hcommon, hagreed, -⟩ := hexact 1
  have hagree : disputed.SamplersAgree 1 := by
    have hall : ∀ e ∈ disputed.inputLeaves, ∀ e' ∈ disputed.inputLeaves,
        Samples 1 e → Samples 1 e' → e.2.type = e'.2.type := by
      rw [disputed_inputLeaves]
      decide
    intro e e' he he'
    exact hall e ((hmem e).2 he) e' ((hmem e').2 he')
  rw [disputed_inputLeaves] at hdisputed hcommon
  exact ⟨disputed_built, disputed_slots, hdisputed, hagree, hagreed hagree, hcommon⟩

/-- The walk along the declared inputs meets the two-dimensional sampler of texture 0 first. -/
theorem not_typedByFirst_disputed :
    disputed.graph.Built ∧ disputed.Sound ∧ disputed.usage.textureType 0 = .samplerCube ∧
      ¬disputed.TypedByFirst 0 := by
  have htype : disputed.usage.textureType 0 = .samplerCube := by
    rw [textureType_usage, disputed_inputLeaves]
    rfl
  refine ⟨disputed_built, disputed_sound, htype, fun hfirst => ?_⟩
  have hdeclared := hfirst _ disputed_meets
  rw [htype] at hdeclared
  exact absurd hdeclared (by decide)

end PassGraph

end MaterialGraph
