import MaterialGraph.Proofs.Body.Progress
import MaterialGraph.Proofs.Graph.Search

/-!
Emission as a recursion that keeps the nodes in progress beside those emitted, and that
has no value where it goes too deep or leaves the graph. With more depth than the graph
has nodes it has one on every graph, cyclic ones included, and what comes of it then is
what emission gives.
-/

namespace MaterialGraph.Body

/-- The nodes in progress are those whose emission has begun and not ended. -/
structure Emitter where
  emission : Emission := {}
  inProgress : List Nat := []

/-- The inputs of a node one after the other; `emit` emits a producer. -/
def emitInputs (emit : Nat → Emitter → ExceptT Failure Option Emitter) (n : Node) :
    List (Binding × Pin) → Emitter → ExceptT Failure Option Emitter
  | [], s => pure s
  | (.leaf _, _) :: rest, s => emitInputs emit n rest s
  | (.unbound, pin) :: _, _ => throw (.compile (.unboundInput n.name n.type.name pin.name))
  | (.output o, _) :: rest, s => emit o.node s >>= emitInputs emit n rest

/-- The recursion to a given depth. A node in progress that is met again closes a cycle. -/
def emitWithin (g : Graph) (access : Leaf → Outcome String) :
    Nat → Nat → Emitter → ExceptT Failure Option Emitter
  | 0, _, _ => .mk none
  | depth + 1, id, s =>
    match g.node? id with
    | none => .mk none
    | some n =>
      if (s.emission.firsts.lookup id).isSome then pure s
      else if id ∈ s.inProgress then throw (.compile (.recursiveNode n.name))
      else do
        let s ← emitInputs (emitWithin g access depth) n (n.inputs.zip n.type.inputs)
          ⟨s.emission, s.inProgress ++ [id]⟩
        let e ← ExceptT.mk (some (emitCall g access id n s.emission))
        pure ⟨e, s.inProgress.erase id⟩

def Emitter.assign (s : Emitter) (field : Field) (value : Operand) : Emitter :=
  ⟨{ s.emission with statements := s.emission.statements ++ [.assign field value] }, s.inProgress⟩

def outputWithin (p : PassGraph) (access : Leaf → Outcome String) (depth : Nat) (o : Output)
    (field : Field) (s : Emitter) : ExceptT Failure Option Emitter :=
  match p.output o with
  | .unbound => pure s
  | .leaf l => do
    let t ← ExceptT.mk (some (access l))
    pure (s.assign field (.text t))
  | .output ref => do
    let s ← emitWithin p.graph access depth ref.node s
    match s.emission.temp? p.graph ref with
    | some m => pure (s.assign field (.temp m))
    | none => throw (.fault (.outputNotEmitted o))

/-- The outputs of a pass one after the other, with one record of the nodes in progress. -/
def passWithin (p : PassGraph) (access : Leaf → Outcome String) (depth : Nat) :
    ExceptT Failure Option Body := do
  let s ← if p.color = .unbound then pure ⟨⟨0, [], [.assign .color white]⟩, []⟩
    else
      outputWithin p access depth .color (if p.alpha = .unbound then .color else .colorXyz) {}
  let s ← outputWithin p access depth .alpha .colorW s
  let s ← outputWithin p access depth .depth .depth s
  pure s.emission.statements

/-- An outcome of emission with the nodes that are in progress then. -/
def withProgress (inProgress : List Nat) (r : Outcome Emission) : ExceptT Failure Option Emitter :=
  .mk (some (r.map fun e => ⟨e, inProgress⟩))

variable {g : Graph} {access : Leaf → Outcome String} {available inProgress inProgress' : List Nat}
  {id depth : Nat} {n : Node} {e : Emission} {inputs : List (Binding × Pin)}

theorem withProgress_bind (r : Outcome Emission) {k : Emission → Outcome Emission}
    {k' : Emitter → ExceptT Failure Option Emitter}
    (hk : ∀ e, k' ⟨e, inProgress⟩ = withProgress inProgress' (k e)) :
    (withProgress inProgress r >>= k') = withProgress inProgress' (r.bind k) := by
  cases r with
  | error f => rfl
  | ok e => exact hk e

/-- Whether the recursion from a node comes to what emission gives for it. -/
def NodeAgrees (g : Graph) (access : Leaf → Outcome String) (available : List Nat) (id : Nat)
    (e : Emission) : Prop :=
  ∀ inProgress depth, g.Apart inProgress available → id < g.size → available.length < depth →
    emitWithin g access depth id ⟨e, inProgress⟩ =
      withProgress inProgress (emitNode g access available id e)

def InputsAgree (g : Graph) (access : Leaf → Outcome String) (available : List Nat) (n : Node)
    (inputs : List (Binding × Pin)) (e : Emission) : Prop :=
  ∀ inProgress depth, g.Apart inProgress available →
    (∀ b ∈ inputs, ∀ ref, b.1 = .output ref → ref.node < g.size) → available.length < depth →
    emitInputs (emitWithin g access depth) n inputs ⟨e, inProgress⟩ =
      withProgress inProgress (emitProducers g access available n inputs e)

/-- A node in progress is not available, and it is no longer in progress once it is called. -/
theorem nodeAgrees_of_inputs (hg : g.WellWired) (hn : g.node? id = some n)
    (hnew : ¬(e.firsts.lookup id).isSome) (havailable : id ∈ available)
    (hinputs : InputsAgree g access (available.erase id) n (n.inputs.zip n.type.inputs) e) :
    NodeAgrees g access available id e := by
  intro inProgress depth h hid hdepth
  have hnot : id ∉ inProgress := (h.mem_iff id hid).1 havailable
  have hlength := List.length_erase_of_mem havailable
  have hpos := List.length_pos_of_mem havailable
  have hproducers : ∀ b ∈ n.inputs.zip n.type.inputs, ∀ ref, b.1 = .output ref →
      ref.node < g.size := by
    intro b hb ref href
    have hmem : .output ref ∈ n.inputs := href ▸ (List.of_mem_zip hb).1
    exact hg.lt_of_feeds ⟨n, hn, ref, hmem, rfl⟩
  obtain ⟨depth, rfl⟩ : ∃ k, depth = k + 1 := ⟨depth - 1, by omega⟩
  have hfed := hinputs (inProgress ++ [id]) depth (h.visit id) hproducers (by omega)
  rw [emitWithin, emitNode, hn]
  simp only [hnew, hnot, havailable, dite_true, if_false, hfed]
  refine withProgress_bind _ fun fed => ?_
  have hended : (inProgress ++ [id]).erase id = inProgress := by
    rw [List.erase_append_right _ hnot, List.erase_cons_head, List.append_nil]
  rw [hended]
  cases emitCall g access id n fed <;> rfl

theorem nodeAgrees (hg : g.WellWired) (available : List Nat) (id : Nat) (e : Emission) :
    NodeAgrees g access available id e := by
  refine (emitNode.mutual_induct g (NodeAgrees g access) (InputsAgree g access)
    ?absent ?emitted ?fresh ?cycle ?nil ?leaf ?unbound ?output).1 available id e
  case absent =>
    intro available id e hn inProgress depth _ hid
    have hsome : g.node? id = some g.nodes[id] := List.getElem?_eq_getElem hid
    cases hn.symm.trans hsome
  case emitted =>
    intro available id e n hn hdone inProgress depth _ _ hdepth
    obtain ⟨depth, rfl⟩ : ∃ k, depth = k + 1 := ⟨depth - 1, by omega⟩
    rw [emitWithin, emitNode, hn]
    simp only [hdone, if_true]
    rfl
  case fresh =>
    exact fun available id e n hn hnew havailable _ hinputs =>
      nodeAgrees_of_inputs hg hn hnew havailable hinputs
  case cycle =>
    intro available id e n hn hnew hnot inProgress depth h hid hdepth
    have hmem : id ∈ inProgress := by
      by_contra hfree
      exact hnot ((h.mem_iff id hid).2 hfree)
    obtain ⟨depth, rfl⟩ : ∃ k, depth = k + 1 := ⟨depth - 1, by omega⟩
    rw [emitWithin, emitNode, hn]
    simp only [hnew, hnot, hmem, dite_false, if_true]
    rfl
  case nil =>
    intro available n e inProgress depth _ _ _
    rw [emitInputs, emitProducers]
    rfl
  case leaf =>
    intro available n e l pin rest hrest inProgress depth h hinputs hdepth
    rw [emitInputs, emitProducers]
    exact hrest inProgress depth h (fun b hb => hinputs b (List.mem_cons_of_mem _ hb)) hdepth
  case unbound =>
    intro available n e pin rest inProgress depth _ _ _
    rw [emitInputs, emitProducers]
    rfl
  case output =>
    intro available n e ref pin rest hnode hrest inProgress depth h hinputs hdepth
    have hlt : ref.node < g.size := hinputs _ List.mem_cons_self ref rfl
    rw [emitInputs, emitProducers, hnode inProgress depth h hlt hdepth]
    exact withProgress_bind _ fun fed => hrest fed inProgress depth h
      (fun b hb => hinputs b (List.mem_cons_of_mem _ hb)) hdepth

/-- From a node of the graph with none in progress, the recursion ends with none in
progress and comes to what emission gives. -/
theorem emitWithin_eq (hg : g.WellWired) (hid : id < g.size) (hdepth : g.size < depth)
    (e : Emission) :
    emitWithin g access depth id ⟨e, []⟩ = withProgress [] (emitNode g access g.ids id e) := by
  refine nodeAgrees hg g.ids id e [] depth (.start g) hid ?_
  rwa [Graph.ids, List.length_range]

theorem outputWithin_eq {p : PassGraph} (h : p.Linked) (hdepth : p.graph.size < depth) (o : Output)
    (field : Field) (e : Emission) :
    outputWithin p access depth o field ⟨e, []⟩ =
      withProgress [] (emitOutput p access o field e) := by
  unfold outputWithin emitOutput
  cases ho : p.output o with
  | unbound => rfl
  | leaf l => cases hl : access l <;> simp only [hl] <;> rfl
  | output ref =>
    obtain ⟨n, hn, -⟩ := h.outputs o ref ho
    simp only [emitWithin_eq h.wellWired (Graph.node?_lt hn) hdepth e]
    refine withProgress_bind _ fun emitted => ?_
    cases emitted.temp? p.graph ref <;> rfl

/-- With more depth than the pass has nodes, the recursion has a value on every pass. -/
theorem passWithin_eq {p : PassGraph} (h : p.Linked) (hdepth : p.graph.size < depth) :
    passWithin p access depth = .mk (some (ofPass p access)) := by
  have hrest : ∀ e, (do
      let s ← outputWithin p access depth .alpha .colorW ⟨e, []⟩
      let s ← outputWithin p access depth .depth .depth s
      pure s.emission.statements : ExceptT Failure Option Body) =
      .mk (some (((emitOutput p access .alpha .colorW e).bind
        (emitOutput p access .depth .depth)).map Emission.statements)) := by
    intro e
    rw [outputWithin_eq h hdepth]
    cases emitOutput p access .alpha .colorW e with
    | error f => rfl
    | ok e =>
      change (outputWithin p access depth .depth .depth ⟨e, []⟩ >>= _) = _
      rw [outputWithin_eq h hdepth]
      change _ = ExceptT.mk (some ((emitOutput p access .depth .depth e).map _))
      cases emitOutput p access .depth .depth e <;> rfl
  rw [ofPass_eq_map, passWithin]
  by_cases hcolor : p.color = .unbound
  · rw [if_pos hcolor, if_pos hcolor]
    exact hrest _
  · rw [if_neg hcolor, if_neg hcolor, outputWithin_eq h hdepth]
    cases emitOutput p access .color (if p.alpha = .unbound then .color else .colorXyz) {} with
    | error f => rfl
    | ok e => exact hrest e

end MaterialGraph.Body
