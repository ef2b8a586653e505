import MaterialGraph.Proofs.PassGraph.Outputs

/-!
Loading as a recursion that keeps the nodes being resolved beside those that are done. It
has no value where it goes too deep, and where it fails the state stays as it was then.
With more depth than the graph has nodes it has a value on every document, cyclic ones
included; what comes of it is what wiring gives, and the nodes that were being resolved
before are those being resolved after it.
-/

namespace MaterialGraph.PassGraph

open Document (WrittenBinding WrittenNode WrittenPass)

structure Resolution where
  graph : Graph
  /-- The nodes whose resolution has begun and not ended. -/
  resolving : List Nat := []
  done : List Nat := []
  /-- The most nodes that were being resolved at once. -/
  peak : Nat := 0
deriving DecidableEq

namespace Resolution

def enter (s : Resolution) (id : Nat) : Resolution :=
  { s with resolving := id :: s.resolving, peak := max s.peak (s.resolving.length + 1) }

def leave (s : Resolution) (id : Nat) : Resolution :=
  { s with resolving := s.resolving.erase id, done := id :: s.done }

end Resolution

/-- Activities that resolve bindings. -/
abbrev Resolving := ExceptT Failure (StateT Resolution Option)

namespace Resolving

def ofOutcome {α : Type} (r : Outcome α) : Resolving α :=
  ExceptT.mk (pure r)

def tooDeep {α : Type} : Resolving α :=
  ExceptT.mk fun _ => none

end Resolving

/-- The binding of a graph for a written one; `resolve` resolves the node that it names. -/
def resolveBinding (resolve : Nat → Resolving Unit) (site : String) (b : WrittenBinding) :
    Resolving Binding := do
  match ← Resolving.ofOutcome (classify site b) with
  | .leaf l => return .leaf l
  | .node name output =>
    let named := namedOutput (← get).graph site name output
    let ref ← Resolving.ofOutcome (named.mapError .compile)
    resolve ref.node
    return .output ref

/-- The inputs of a node one after the other. -/
def resolveInputs (resolve : Nat → Resolving Unit) (id : Nat) (n : Node)
    (written : Table WrittenBinding) : List (Pin × Nat) → Resolving Unit
  | [] => return ()
  | (pin, i) :: rest =>
    match written.get? pin.name with
    | none => throw (.compile (.missingInput n.name n.type.name pin.name))
    | some b => do
      let target ← resolveBinding resolve (n.name ++ "." ++ pin.name) b
      let g ← Resolving.ofOutcome (bind (← get).graph ⟨id, i⟩ target)
      modify fun s => { s with graph := g }
      resolveInputs resolve id n written rest

/-- The recursion to a given depth. A node being resolved that is met again closes a cycle. -/
def resolveNode (nodes : List WrittenNode) : Nat → Nat → Resolving Unit
  | 0, _ => Resolving.tooDeep
  | depth + 1, id => do
    let s ← get
    if id ∈ s.done then return ()
    else
      match s.graph.node? id, nodes[id]? with
      | some n, some written =>
        if id ∈ s.resolving then throw (.compile (.recursiveNode n.name))
        else
          modify (·.enter id)
          match written.inputs.names.find? fun k => (n.type.findInput? k).isNone with
          | some unknown => throw (.compile (.unknownInput n.name unknown))
          | none =>
            resolveInputs (resolveNode nodes depth) id n written.inputs n.type.inputs.zipIdx
            modify (·.leave id)
      | _, _ => throw (.fault (.nodeNotFound id))

def resolveOutput (d : Document) (pass : Pass) (written : WrittenPass) (depth : Nat) (o : Output) :
    Resolving Binding :=
  match written.output? o with
  | none => return .unbound
  | some b => do
    let target ← ExceptT.adapt (Failure.during ("shader '" ++ d.name ++ "' pass " ++ pass.name))
      (resolveBinding (resolveNode d.nodes.values depth) (pass.name ++ "." ++ o.key) b)
    if isSampler (← get).graph target then
      throw ((Failure.compile (.invalidOutput pass o)).during ("shader '" ++ d.name ++ "'"))
    else return target

/-- Outputs one after the other, with one record of the nodes that are done. -/
def resolveOutputs (d : Document) (pass : Pass) (written : WrittenPass) (depth : Nat) :
    List Output → Resolving (List Binding)
  | [] => return []
  | o :: rest => do
    let target ← resolveOutput d pass written depth o
    let targets ← resolveOutputs d pass written depth rest
    return target :: targets

section Run

variable {α β : Type} {x : Resolving α} {k : α → Resolving β} {s s' : Resolution}

theorem Resolving.run_bind_of_ok {a : α} (h : x.run s = some (.ok a, s')) :
    (x >>= k).run s = (k a).run s' := by
  simp only [ExceptT.run, Bind.bind, ExceptT.bind, ExceptT.mk, StateT.bind] at h ⊢
  rw [h]
  rfl

theorem Resolving.run_bind_of_error {f : Failure} (h : x.run s = some (.error f, s')) :
    (x >>= k).run s = some (.error f, s') := by
  simp only [ExceptT.run, Bind.bind, ExceptT.bind, ExceptT.mk, StateT.bind] at h ⊢
  rw [h]
  rfl

theorem Resolving.run_adapt {f : Failure → Failure} :
    (ExceptT.adapt f x : Resolving α).run s = (x.run s).map fun r => (r.1.mapError f, r.2) := by
  change (x.run s).bind _ = _
  cases x.run s <;> rfl

end Run

/-- Whether a state is that of a wiring. The nodes being resolved and those that are
available are all nodes of the graph. -/
structure Resolution.Mirrors (s : Resolution) (available : List Nat) (w : Wiring) : Prop where
  graph : s.graph = w.graph
  done : s.done = w.wired
  parts : (s.resolving ++ available).Perm w.graph.ids
  peak : s.peak ≤ w.graph.size

namespace Resolution.Mirrors

variable {s s' : Resolution} {available : List Nat} {w w' : Wiring} {id : Nat}

theorem start (g : Graph) : Mirrors ⟨g, [], [], 0⟩ g.ids ⟨g, []⟩ :=
  ⟨rfl, rfl, .refl _, Nat.zero_le _⟩

theorem size_eq (h : s.Mirrors available w) :
    w.graph.size = s.resolving.length + available.length := by
  simpa [Graph.ids] using h.parts.length_eq.symm

/-- The graph has as many nodes as before once the same nodes are being resolved. -/
theorem size_eq_of_resolving (h : s.Mirrors available w) (h' : s'.Mirrors available w')
    (hresolving : s'.resolving = s.resolving) : w'.graph.size = w.graph.size := by
  rw [h.size_eq, h'.size_eq, hresolving]

theorem not_mem_of_available (h : s.Mirrors available w) (hid : id ∈ available) :
    id ∉ s.resolving := by
  have hnodup : (s.resolving ++ available).Nodup := h.parts.nodup_iff.2 List.nodup_range
  exact fun hmem => (List.nodup_append.1 hnodup).2.2 id hmem id hid rfl

theorem mem_of_not_available (h : s.Mirrors available w) (hlt : id < w.graph.size)
    (hid : id ∉ available) : id ∈ s.resolving := by
  have hmem : id ∈ s.resolving ++ available := h.parts.mem_iff.2 (List.mem_range.2 hlt)
  exact (List.mem_append.1 hmem).resolve_right hid

/-- A node that is being resolved is no longer available. -/
theorem enter (h : s.Mirrors available w) (hid : id ∈ available) :
    (s.enter id).Mirrors (available.erase id) w where
  graph := h.graph
  done := h.done
  parts := by
    have hperm : (s.resolving ++ available).Perm (s.resolving ++ id :: available.erase id) :=
      (List.perm_cons_erase hid).append_left _
    exact (List.perm_middle.symm.trans hperm.symm).trans h.parts
  peak := by
    have hpos := List.length_pos_of_mem hid
    have hsize := h.size_eq
    have hpeak := h.peak
    simp only [Resolution.enter]
    omega

/-- A node that is done is no longer being resolved. -/
theorem leave (hid : id ∈ available) (h' : s'.Mirrors (available.erase id) w')
    (hresolving : s'.resolving = id :: s.resolving) :
    (s'.leave id).resolving = s.resolving ∧
      (s'.leave id).Mirrors available ⟨w'.graph, id :: w'.wired⟩ := by
  have hleft : (s'.leave id).resolving = s.resolving := by
    rw [Resolution.leave, hresolving, List.erase_cons_head]
  refine ⟨hleft, h'.graph, ?_, ?_, h'.peak⟩
  · rw [Resolution.leave, h'.done]
  · rw [hleft]
    have hperm : (s.resolving ++ available).Perm (s.resolving ++ id :: available.erase id) :=
      (List.perm_cons_erase hid).append_left _
    refine hperm.trans (List.perm_middle.trans ?_)
    have hparts := h'.parts
    rwa [hresolving] at hparts

/-- Binding an input of a node leaves the nodes of the graph as they are. -/
theorem rebind {g : Graph} (h : s.Mirrors available w) (hg : g.size = w.graph.size) :
    Mirrors { s with graph := g } available { w with graph := g } where
  graph := rfl
  done := h.done
  parts := by
    have hids : g.ids = w.graph.ids := by rw [Graph.ids, Graph.ids, hg]
    rw [hids]
    exact h.parts
  peak := hg ▸ h.peak

end Resolution.Mirrors

theorem size_bind {g g' : Graph} {i : InputRef} {target : Binding} (h : bind g i target = .ok g') :
    g'.size = g.size := by
  have houtline : g'.outline = g.outline := by
    cases target with
    | unbound =>
      cases h
      rfl
    | leaf l => exact Graph.outline_bindLeaf (Except.mapError_eq_ok_iff.1 h)
    | output ref => exact Graph.outline_connect (Except.mapError_eq_ok_iff.1 h)
  simpa [Graph.outline, Graph.size] using congrArg List.length houtline

theorem lt_of_namedOutput {g : Graph} {site name output : String} {ref : OutputRef}
    (h : namedOutput g site name output = .ok ref) : ref.node < g.size := by
  rw [Document.Skeleton.namedOutput_eq] at h
  split at h
  · cases h
  · next id hfind =>
    split at h
    · cases h
      exact Document.Skeleton.findIdx?_lt hfind
    · cases h

/-- Whether a run comes to what wiring gives. If it succeeds, the nodes that were being
resolved are being resolved again; in any case there were never more than the graph has. -/
def Tracks {α : Type} (s : Resolution) (available : List Nat)
    (r : Option (Outcome α × Resolution)) : Outcome (α × Wiring) → Prop
  | .ok (a, w) => ∃ s', r = some (.ok a, s') ∧ s'.Mirrors available w ∧ s'.resolving = s.resolving
  | .error f => ∃ s', r = some (.error f, s') ∧ s'.peak ≤ s.graph.size

section Tracks

variable {α β : Type} {s : Resolution} {available : List Nat} {w : Wiring} {x : Resolving α}
  {k : α → Resolving β} {r : Outcome (α × Wiring)} {k' : α × Wiring → Outcome (β × Wiring)}

theorem tracks_error {r : Option (Outcome α × Resolution)} {f : Failure}
    (h : s.Mirrors available w) (hr : r = some (.error f, s)) : Tracks s available r (.error f) :=
  ⟨s, hr, h.graph ▸ h.peak⟩

theorem tracks_ok {r : Option (Outcome α × Resolution)} {a : α} (h : s.Mirrors available w)
    (hr : r = some (.ok a, s)) : Tracks s available r (.ok (a, w)) :=
  ⟨s, hr, h, rfl⟩

/-- What tracks wiring from a later state with the same nodes being resolved does so from
the earlier one. -/
theorem Tracks.of_resolving {s' : Resolution} {w' : Wiring} {r : Option (Outcome α × Resolution)}
    {o : Outcome (α × Wiring)} (h : s.Mirrors available w) (h' : s'.Mirrors available w')
    (hresolving : s'.resolving = s.resolving) (hr : Tracks s' available r o) :
    Tracks s available r o := by
  cases o with
  | ok result =>
    obtain ⟨s'', hr, hmirrors, hsame⟩ := hr
    exact ⟨s'', hr, hmirrors, hsame.trans hresolving⟩
  | error f =>
    obtain ⟨s'', hr, hpeak⟩ := hr
    refine ⟨s'', hr, ?_⟩
    rwa [h'.graph, h.size_eq_of_resolving h' hresolving, ← h.graph] at hpeak

/-- Steps that track wiring make up a sequence that does. -/
theorem Tracks.bind (h : s.Mirrors available w) (hx : Tracks s available (x.run s) r)
    (hk : ∀ a w' s', r = .ok (a, w') → s'.Mirrors available w' → s'.resolving = s.resolving →
      Tracks s' available ((k a).run s') (k' (a, w'))) :
    Tracks s available ((x >>= k).run s) (r.bind k') := by
  cases r with
  | error f =>
    obtain ⟨s', hrun, hpeak⟩ := hx
    exact ⟨s', Resolving.run_bind_of_error hrun, hpeak⟩
  | ok result =>
    obtain ⟨a, w'⟩ := result
    obtain ⟨s', hrun, hmirrors, hresolving⟩ := hx
    rw [Resolving.run_bind_of_ok hrun]
    exact (hk a w' s' rfl hmirrors hresolving).of_resolving h hmirrors hresolving

end Tracks

section Recursion

variable {nodes : List WrittenNode} {available : List Nat} {id : Nat} {w w' : Wiring} {n : Node}

/-- Whether resolving a binding, to a depth beyond the nodes available, tracks wiring it. -/
def BindingTracks (nodes : List WrittenNode) (available : List Nat) (site : String)
    (b : WrittenBinding) (w : Wiring) : Prop :=
  ∀ s depth, s.Mirrors available w → available.length < depth →
    Tracks s available ((resolveBinding (resolveNode nodes depth) site b).run s)
      (wireBinding nodes available site b w)

def NodeTracks (nodes : List WrittenNode) (available : List Nat) (id : Nat) (w : Wiring) : Prop :=
  ∀ s depth, s.Mirrors available w → id < w.graph.size → available.length ≤ depth →
    Tracks s available ((resolveNode nodes (depth + 1) id).run s)
      ((wireNode nodes available id w).map fun w => ((), w))

def InputsTrack (nodes : List WrittenNode) (available : List Nat) (id : Nat) (n : Node)
    (written : Table WrittenBinding) (pins : List (Pin × Nat)) (w : Wiring) : Prop :=
  ∀ s depth, s.Mirrors available w → available.length < depth →
    Tracks s available ((resolveInputs (resolveNode nodes depth) id n written pins).run s)
      ((wireInputs nodes available id n written pins w).map fun w => ((), w))

section Binding

variable {site : String} {b : WrittenBinding}

theorem bindingTracks_unclassified {f : Failure} (h : classify site b = .error f) :
    BindingTracks nodes available site b w := by
  intro s depth hs _
  rw [wireBinding, h]
  refine tracks_error hs ?_
  rw [resolveBinding, h]
  rfl

theorem bindingTracks_leaf {l : Leaf} (h : classify site b = .ok (.leaf l)) :
    BindingTracks nodes available site b w := by
  intro s depth hs _
  rw [wireBinding, h]
  refine tracks_ok hs ?_
  rw [resolveBinding, h]
  rfl

theorem run_resolveBinding_node {resolve : Nat → Resolving Unit} {name output : String}
    (h : classify site b = .ok (.node name output)) (s : Resolution) :
    (resolveBinding resolve site b).run s =
      match namedOutput s.graph site name output with
      | .error e => some (.error (.compile e), s)
      | .ok ref =>
        (resolve ref.node >>= fun _ => pure (.output ref) : Resolving Binding).run s := by
  rw [resolveBinding, h]
  change (Resolving.ofOutcome ((namedOutput s.graph site name output).mapError .compile) >>=
    fun ref => resolve ref.node >>= fun _ => pure (.output ref) : Resolving Binding).run s = _
  cases namedOutput s.graph site name output <;> rfl

theorem bindingTracks_unnamed {name output : String} {e : CompileError}
    (h : classify site b = .ok (.node name output))
    (hnamed : namedOutput w.graph site name output = .error e) :
    BindingTracks nodes available site b w := by
  intro s depth hs _
  rw [wireBinding, h]
  simp only [hnamed]
  refine tracks_error hs ?_
  rw [run_resolveBinding_node h, hs.graph, hnamed]

theorem bindingTracks_node {name output : String} {ref : OutputRef}
    (h : classify site b = .ok (.node name output))
    (hnamed : namedOutput w.graph site name output = .ok ref)
    (hnode : NodeTracks nodes available ref.node w) : BindingTracks nodes available site b w := by
  intro s depth hs hdepth
  obtain ⟨depth, rfl⟩ : ∃ k, depth = k + 1 := ⟨depth - 1, by omega⟩
  have htracks := hnode s depth hs (lt_of_namedOutput hnamed) (Nat.le_of_lt_succ hdepth)
  rw [wireBinding, h]
  simp only [hnamed]
  rw [run_resolveBinding_node h, hs.graph, hnamed]
  cases hwire : wireNode nodes available ref.node w with
  | error f =>
    rw [hwire] at htracks
    obtain ⟨s', hrun, hpeak⟩ := htracks
    exact ⟨s', Resolving.run_bind_of_error hrun, hpeak⟩
  | ok w' =>
    rw [hwire] at htracks
    obtain ⟨s', hrun, hmirrors, hresolving⟩ := htracks
    exact ⟨s', Resolving.run_bind_of_ok hrun, hmirrors, hresolving⟩

end Binding

section Inputs

variable {written : Table WrittenBinding} {pin : Pin} {k : Nat} {rest : List (Pin × Nat)}
  {b : WrittenBinding}

theorem inputsTrack_nil : InputsTrack nodes available id n written [] w := by
  intro s depth hs _
  rw [wireInputs]
  exact tracks_ok hs rfl

theorem inputsTrack_missing (h : written.get? pin.name = none) :
    InputsTrack nodes available id n written ((pin, k) :: rest) w := by
  intro s depth hs _
  rw [wireInputs, h]
  refine tracks_error hs ?_
  rw [resolveInputs, h]
  rfl

/-- An input that is written is resolved first. -/
theorem resolveInputs_cons {resolve : Nat → Resolving Unit} (h : written.get? pin.name = some b) :
    resolveInputs resolve id n written ((pin, k) :: rest) =
      (resolveBinding resolve (n.name ++ "." ++ pin.name) b >>= fun target => do
        let g ← Resolving.ofOutcome (bind (← get).graph ⟨id, k⟩ target)
        modify fun s => { s with graph := g }
        resolveInputs resolve id n written rest) := by
  rw [resolveInputs, h]

/-- It is bound then, and the others follow. -/
theorem run_resolveInputs_cons {resolve : Nat → Resolving Unit} {s s' : Resolution}
    {target : Binding} (h : written.get? pin.name = some b)
    (hrun : (resolveBinding resolve (n.name ++ "." ++ pin.name) b).run s =
      some (.ok target, s')) :
    (resolveInputs resolve id n written ((pin, k) :: rest)).run s =
      match bind s'.graph ⟨id, k⟩ target with
      | .error f => some (.error f, s')
      | .ok g => (resolveInputs resolve id n written rest).run { s' with graph := g } := by
  rw [resolveInputs_cons h, Resolving.run_bind_of_ok hrun]
  change (Resolving.ofOutcome (bind s'.graph ⟨id, k⟩ target) >>= fun g =>
    (modify fun s => { s with graph := g }) >>= fun _ =>
      resolveInputs resolve id n written rest : Resolving Unit).run s' = _
  cases bind s'.graph ⟨id, k⟩ target <;> rfl

theorem inputsTrack_binding_error {f : Failure} (hb : written.get? pin.name = some b)
    (hwire : wireBinding nodes available (n.name ++ "." ++ pin.name) b w = .error f)
    (hbinding : BindingTracks nodes available (n.name ++ "." ++ pin.name) b w) :
    InputsTrack nodes available id n written ((pin, k) :: rest) w := by
  intro s depth hs hdepth
  have htracks := hbinding s depth hs hdepth
  rw [hwire] at htracks
  obtain ⟨s', hrun, hpeak⟩ := htracks
  rw [wireInputs, hb]
  simp only [hwire]
  rw [resolveInputs_cons hb]
  exact ⟨s', Resolving.run_bind_of_error hrun, hpeak⟩

theorem inputsTrack_bind_error {f : Failure} {target : Binding}
    (hb : written.get? pin.name = some b)
    (hwire : wireBinding nodes available (n.name ++ "." ++ pin.name) b w = .ok (target, w'))
    (hbind : bind w'.graph ⟨id, k⟩ target = .error f)
    (hbinding : BindingTracks nodes available (n.name ++ "." ++ pin.name) b w) :
    InputsTrack nodes available id n written ((pin, k) :: rest) w := by
  intro s depth hs hdepth
  have htracks := hbinding s depth hs hdepth
  rw [hwire] at htracks
  obtain ⟨s', hrun, hmirrors, hresolving⟩ := htracks
  rw [wireInputs, hb]
  simp only [hwire, hbind]
  refine Tracks.of_resolving hs hmirrors hresolving (tracks_error hmirrors ?_)
  rw [run_resolveInputs_cons hb hrun, hmirrors.graph, hbind]

theorem inputsTrack_cons {g : Graph} {target : Binding} (hb : written.get? pin.name = some b)
    (hwire : wireBinding nodes available (n.name ++ "." ++ pin.name) b w = .ok (target, w'))
    (hbind : bind w'.graph ⟨id, k⟩ target = .ok g)
    (hbinding : BindingTracks nodes available (n.name ++ "." ++ pin.name) b w)
    (hrest : InputsTrack nodes available id n written rest ⟨g, w'.wired⟩) :
    InputsTrack nodes available id n written ((pin, k) :: rest) w := by
  intro s depth hs hdepth
  have htracks := hbinding s depth hs hdepth
  rw [hwire] at htracks
  obtain ⟨s', hrun, hmirrors, hresolving⟩ := htracks
  have hbound := hmirrors.rebind (size_bind hbind)
  rw [wireInputs, hb]
  simp only [hwire, hbind]
  refine Tracks.of_resolving hs hbound hresolving ?_
  rw [run_resolveInputs_cons hb hrun, hmirrors.graph, hbind]
  exact hrest _ depth hbound hdepth

end Inputs

section Node

variable {written : WrittenNode}

/-- What a node that is not done comes to, in the order in which it is checked. -/
theorem run_resolveNode_succ {depth : Nat} {s : Resolution} (hnew : id ∉ s.done)
    (hn : s.graph.node? id = some n) (hwritten : nodes[id]? = some written) :
    (resolveNode nodes (depth + 1) id).run s =
      if id ∈ s.resolving then some (.error (.compile (.recursiveNode n.name)), s)
      else
        match written.inputs.names.find? fun k => (n.type.findInput? k).isNone with
        | some unknown => some (.error (.compile (.unknownInput n.name unknown)), s.enter id)
        | none =>
          (resolveInputs (resolveNode nodes depth) id n written.inputs n.type.inputs.zipIdx >>=
            fun _ => modify (·.leave id) : Resolving Unit).run (s.enter id) := by
  change (if id ∈ s.done then pure () else _ : Resolving Unit).run s = _
  rw [if_neg hnew, hn, hwritten]
  by_cases hresolving : id ∈ s.resolving
  · simp only [hresolving, if_true]
    rfl
  · simp only [hresolving, if_false]
    cases written.inputs.names.find? fun k => (n.type.findInput? k).isNone <;> rfl

theorem nodeTracks_wired (h : w.wired.contains id) : NodeTracks nodes available id w := by
  intro s depth hs _ _
  have hdone : id ∈ s.done := hs.done ▸ List.contains_iff_mem.1 h
  rw [wireNode, if_pos h]
  refine tracks_ok hs ?_
  change (if id ∈ s.done then pure () else _ : Resolving Unit).run s = _
  rw [if_pos hdone]
  rfl

theorem not_mem_done {s : Resolution} (hs : s.Mirrors available w)
    (hunwired : ¬w.wired.contains id) : id ∉ s.done := by
  rw [hs.done]
  exact fun hmem => hunwired (List.contains_iff_mem.2 hmem)

theorem nodeTracks_unknown (hunwired : ¬w.wired.contains id) (hn : w.graph.node? id = some n)
    (hwritten : nodes[id]? = some written) (hid : id ∈ available) {key : String}
    (hkey : (written.inputs.names.find? fun k => (n.type.findInput? k).isNone) = some key) :
    NodeTracks nodes available id w := by
  intro s depth hs _ _
  rw [wireNode, if_neg hunwired]
  simp only [hn, hwritten, hid, dite_true, hkey]
  refine ⟨s.enter id, ?_, hs.graph ▸ (hs.enter hid).peak⟩
  rw [run_resolveNode_succ (not_mem_done hs hunwired) (hs.graph ▸ hn) hwritten,
    if_neg (hs.not_mem_of_available hid), hkey]

/-- The node is no longer available to its inputs, and it is done after them. -/
theorem nodeTracks_inputs (hunwired : ¬w.wired.contains id) (hn : w.graph.node? id = some n)
    (hwritten : nodes[id]? = some written) (hid : id ∈ available)
    (hknown : (written.inputs.names.find? fun k => (n.type.findInput? k).isNone) = none)
    (hinputs : InputsTrack nodes (available.erase id) id n written.inputs
      n.type.inputs.zipIdx w) : NodeTracks nodes available id w := by
  intro s depth hs _ hdepth
  have hlength := List.length_erase_of_mem hid
  have hpos := List.length_pos_of_mem hid
  have htracks := hinputs (s.enter id) depth (hs.enter hid) (by omega)
  rw [wireNode, if_neg hunwired]
  simp only [hn, hwritten, hid, dite_true, hknown]
  rw [run_resolveNode_succ (not_mem_done hs hunwired) (hs.graph ▸ hn) hwritten,
    if_neg (hs.not_mem_of_available hid), hknown]
  cases hwire : wireInputs nodes (available.erase id) id n written.inputs
      n.type.inputs.zipIdx w with
  | error f =>
    rw [hwire] at htracks
    obtain ⟨s', hrun, hpeak⟩ := htracks
    exact ⟨s', Resolving.run_bind_of_error hrun, hpeak⟩
  | ok w' =>
    rw [hwire] at htracks
    obtain ⟨s', hrun, hmirrors, hresolving⟩ := htracks
    obtain ⟨hleft, hdone⟩ := Resolution.Mirrors.leave hid hmirrors hresolving
    exact ⟨s'.leave id, Resolving.run_bind_of_ok hrun, hdone, hleft⟩

theorem nodeTracks_cycle (hunwired : ¬w.wired.contains id) (hn : w.graph.node? id = some n)
    (hwritten : nodes[id]? = some written) (hid : id ∉ available) :
    NodeTracks nodes available id w := by
  intro s depth hs hlt _
  rw [wireNode, if_neg hunwired]
  simp only [hn, hwritten, hid, dite_false]
  refine tracks_error hs ?_
  rw [run_resolveNode_succ (not_mem_done hs hunwired) (hs.graph ▸ hn) hwritten,
    if_pos (hs.mem_of_not_available hlt hid)]

theorem nodeTracks_absent (hunwired : ¬w.wired.contains id)
    (h : ∀ n written, w.graph.node? id = some n → nodes[id]? = some written → False) :
    NodeTracks nodes available id w := by
  intro s depth hs _ _
  have hnew := not_mem_done hs hunwired
  have hrun : (resolveNode nodes (depth + 1) id).run s =
      some (.error (.fault (.nodeNotFound id)), s) := by
    change (if id ∈ s.done then pure () else _ : Resolving Unit).run s = _
    rw [if_neg hnew, hs.graph]
    cases hn : w.graph.node? id with
    | none => rfl
    | some n =>
      cases hwritten : nodes[id]? with
      | none => rfl
      | some written => exact (h n written hn hwritten).elim
  have hwire : wireNode nodes available id w = .error (.fault (.nodeNotFound id)) := by
    rw [wireNode, if_neg hunwired]
    split
    · next n written hn hwritten => exact (h n written hn hwritten).elim
    · rfl
  rw [hwire]
  exact tracks_error hs hrun

end Node

/-- By induction along the recursion of wiring. -/
theorem bindingTracks (nodes : List WrittenNode) (available : List Nat) (site : String)
    (b : WrittenBinding) (w : Wiring) : BindingTracks nodes available site b w := by
  refine (wireBinding.mutual_induct nodes (BindingTracks nodes) (NodeTracks nodes)
    (InputsTrack nodes) ?unclassified ?leaf ?unnamed ?node ?wired ?unknown ?inputs ?cycle ?absent
    ?nil ?missing ?bindingError ?bindError ?cons).1 available site b w
  case unclassified => exact fun available site b w f => bindingTracks_unclassified
  case leaf => exact fun available site b w l => bindingTracks_leaf
  case unnamed => exact fun available site b w name output h e => bindingTracks_unnamed h
  case node => exact fun available site b w name output h ref => bindingTracks_node h
  case wired => exact fun available id w => nodeTracks_wired
  case unknown =>
    exact fun available id w h n written hwritten hn hid _ key =>
      nodeTracks_unknown h hn hwritten hid
  case inputs =>
    exact fun available id w h n written hwritten hn hid _ => nodeTracks_inputs h hn hwritten hid
  case cycle =>
    exact fun available id w h n written hwritten hn => nodeTracks_cycle h hn hwritten
  case absent => exact fun available id w h => nodeTracks_absent h
  case nil => exact fun available id n written w => inputsTrack_nil
  case missing => exact fun available id n written w pin k rest => inputsTrack_missing
  case bindingError =>
    exact fun available id n written w pin k rest b hb f => inputsTrack_binding_error hb
  case bindError =>
    exact fun available id n written w pin k rest b hb target w' hwire f =>
      inputsTrack_bind_error hb hwire
  case cons =>
    exact fun available id n written w pin k rest b hb target w' hwire g =>
      inputsTrack_cons hb hwire

end Recursion

section Outputs

variable {d : Document} {pass : Pass} {written : WrittenPass} {s : Resolution} {w w' : Wiring}
  {available : List Nat} {o : Output} {depth : Nat}

theorem run_resolveOutput_of_error {b : WrittenBinding} {f : Failure} {s' : Resolution}
    (hb : written.output? o = some b)
    (h : (resolveBinding (resolveNode d.nodes.values depth) (pass.name ++ "." ++ o.key) b).run s =
      some (.error f, s')) :
    (resolveOutput d pass written depth o).run s =
      some (.error (f.during ("shader '" ++ d.name ++ "' pass " ++ pass.name)), s') := by
  rw [resolveOutput, hb]
  refine Resolving.run_bind_of_error ?_
  rw [Resolving.run_adapt, h]
  rfl

theorem run_resolveOutput_of_ok {b : WrittenBinding} {target : Binding} {s' : Resolution}
    (hb : written.output? o = some b)
    (h : (resolveBinding (resolveNode d.nodes.values depth) (pass.name ++ "." ++ o.key) b).run s =
      some (.ok target, s')) :
    (resolveOutput d pass written depth o).run s =
      if isSampler s'.graph target then some (.error
        ((Failure.compile (.invalidOutput pass o)).during ("shader '" ++ d.name ++ "'")), s')
      else some (.ok target, s') := by
  rw [resolveOutput, hb]
  have hadapt : (ExceptT.adapt (Failure.during ("shader '" ++ d.name ++ "' pass " ++ pass.name))
      (resolveBinding (resolveNode d.nodes.values depth) (pass.name ++ "." ++ o.key) b)).run s =
        some (.ok target, s') := by
    rw [Resolving.run_adapt, h]
    rfl
  rw [Resolving.run_bind_of_ok hadapt]
  change (if isSampler s'.graph target then throw _ else pure target : Resolving Binding).run s' = _
  split <;> rfl

/-- With no nodes being resolved before, resolving an output tracks wiring it. -/
theorem outputTracks (hs : s.Mirrors w.graph.ids w) (hdepth : w.graph.size < depth) :
    Tracks s w.graph.ids ((resolveOutput d pass written depth o).run s)
      (wireOutput d pass written o w) := by
  cases hb : written.output? o with
  | none =>
    rw [wireOutput_none hb]
    refine tracks_ok hs ?_
    rw [resolveOutput, hb]
    rfl
  | some b =>
    have hlength : w.graph.ids.length < depth := by rwa [Graph.ids, List.length_range]
    have htracks := bindingTracks d.nodes.values w.graph.ids (pass.name ++ "." ++ o.key) b w s
      depth hs hlength
    rw [wireOutput_some hb]
    cases hwire : wireBinding d.nodes.values w.graph.ids (pass.name ++ "." ++ o.key) b w with
    | error f =>
      rw [hwire] at htracks
      obtain ⟨s', hrun, hpeak⟩ := htracks
      exact ⟨s', run_resolveOutput_of_error hb hrun, hpeak⟩
    | ok result =>
      obtain ⟨target, w'⟩ := result
      rw [hwire] at htracks
      obtain ⟨s', hrun, hmirrors, hresolving⟩ := htracks
      rw [run_resolveOutput_of_ok hb hrun, hmirrors.graph]
      refine Tracks.of_resolving hs hmirrors hresolving ?_
      by_cases hsampler : isSampler w'.graph target
      · simp only [hsampler, if_true]
        exact tracks_error hmirrors rfl
      · simp only [hsampler]
        exact tracks_ok hmirrors rfl

/-- Wiring outputs one after the other. -/
def wireEach (d : Document) (pass : Pass) (written : WrittenPass) :
    List Output → Wiring → Outcome (List Binding × Wiring)
  | [], w => .ok ([], w)
  | o :: rest, w => (wireOutput d pass written o w).bind fun r =>
      (wireEach d pass written rest r.2).bind fun rs => .ok (r.1 :: rs.1, rs.2)

theorem wireOutputs_map (d : Document) (pass : Pass) (written : WrittenPass) (g : Graph) :
    ((wireOutputs d pass written g).map fun p => (Output.all.map p.output, p.graph)) =
      (wireEach d pass written Output.all ⟨g, []⟩).map fun r => (r.1, r.2.graph) := by
  simp only [wireOutputs, Output.all, wireEach, Bind.bind]
  cases wireOutput d pass written .color ⟨g, []⟩ with
  | error f => rfl
  | ok r₁ =>
    simp only [Except.bind]
    cases wireOutput d pass written .alpha r₁.2 with
    | error f => rfl
    | ok r₂ =>
      simp only
      cases wireOutput d pass written .depth r₂.2 <;> rfl

theorem outputsTrack {outputs : List Output} (hs : s.Mirrors w.graph.ids w)
    (hdepth : w.graph.size < depth) :
    Tracks s w.graph.ids ((resolveOutputs d pass written depth outputs).run s)
      (wireEach d pass written outputs w) := by
  induction outputs generalizing s w with
  | nil => exact tracks_ok hs rfl
  | cons o rest ih =>
    rw [resolveOutputs, wireEach]
    refine Tracks.bind hs (outputTracks hs hdepth) fun target w' s' _ hs' hresolving => ?_
    have hsize := hs.size_eq_of_resolving hs' hresolving
    have hids : w'.graph.ids = w.graph.ids := by rw [Graph.ids, Graph.ids, hsize]
    rw [← hids] at hs' ⊢
    exact Tracks.bind hs' (ih hs' (hsize ▸ hdepth)) fun targets w'' s'' _ hs'' _ =>
      tracks_ok hs'' rfl

theorem wireEach_sound {types : String → Outcome NodeType} {outputs : List Output}
    {targets : List Binding} (hw : w.Sound d types)
    (h : wireEach d pass written outputs w = .ok (targets, w')) : w'.Sound d types := by
  induction outputs generalizing w targets with
  | nil =>
    cases h
    exact hw
  | cons o rest ih =>
    obtain ⟨⟨target, w₁⟩, houtput, h⟩ := Except.bind_eq_ok_iff.1 h
    obtain ⟨⟨others, w₂⟩, hrest, h⟩ := Except.bind_eq_ok_iff.1 h
    cases h
    have hresult := wireOutput_wired hw pass written o
    rw [houtput] at hresult
    exact ih hresult.1 hrest

end Outputs

end MaterialGraph.PassGraph
