import MaterialGraph.Graph.Basic

/-!
What the operations on a graph do to its nodes and wires. Wiring changes what
an input is bound to and leaves the outline of every node alone. The graphs
that the operations can build have as many inputs and outputs at a node as its
type has pins, and their wires come from outputs that exist.
-/

namespace MaterialGraph

/-- What wiring leaves alone: name, type and the numbers of inputs and outputs. -/
def Node.outline (n : Node) : String × NodeType × Nat × Nat :=
  (n.name, n.type, n.inputs.length, n.consumers.length)

namespace Graph

variable {g g' : Graph} {i j : InputRef} {o ref : OutputRef} {b : Binding} {id : Nat} {n : Node}

def outline (g : Graph) : List (String × NodeType × Nat × Nat) :=
  g.nodes.map Node.outline

/-- Whether a reference names an output of a node of the graph. -/
def HasOutput (g : Graph) (ref : OutputRef) : Prop :=
  ∃ n, g.node? ref.node = some n ∧ ref.output < n.type.outputs.length

theorem node?_lt (h : g.node? id = some n) : id < g.size :=
  (List.getElem?_eq_some_iff.1 h).1

theorem outline_getElem? (g : Graph) (id : Nat) :
    g.outline[id]? = (g.node? id).map Node.outline :=
  List.getElem?_map

/-- Nodes at the same position of graphs with one outline agree in it. -/
theorem node?_of_outline (h : g'.outline = g.outline) (hn : g.node? id = some n) :
    ∃ n', g'.node? id = some n' ∧ n'.outline = n.outline := by
  have hid : (g'.node? id).map Node.outline = some n.outline := by
    rw [← outline_getElem?, h, outline_getElem?, hn, Option.map_some]
  exact Option.map_eq_some_iff.1 hid

theorem hasOutput_of_outline (h : g'.outline = g.outline) (ho : g.HasOutput ref) :
    g'.HasOutput ref := by
  obtain ⟨n, hn, hlt⟩ := ho
  obtain ⟨n', hn', heq⟩ := node?_of_outline h hn
  have htype : n'.type = n.type := congrArg (fun e => e.2.1) heq
  exact ⟨n', hn', by rwa [htype]⟩

private theorem map_modify_outline (l : List Node) (k : Nat) (f : Node → Node)
    (hf : ∀ n, (f n).outline = n.outline) :
    (l.modify k f).map Node.outline = l.map Node.outline := by
  apply List.ext_getElem?
  intro m
  simp only [List.getElem?_map, List.getElem?_modify]
  cases l[m]? with
  | none => rfl
  | some n => by_cases h : k = m <;> simp [h, hf]

@[simp]
theorem outline_setInput (g : Graph) (i : InputRef) (b : Binding) :
    (g.setInput i b).outline = g.outline :=
  map_modify_outline _ _ _ fun n => by simp [Node.outline]

@[simp]
theorem outline_modifyConsumers (g : Graph) (o : OutputRef)
    (f : List InputRef → List InputRef) : (g.modifyConsumers o f).outline = g.outline :=
  map_modify_outline _ _ _ fun n => by simp [Node.outline]

@[simp]
theorem binding?_modifyConsumers (g : Graph) (o : OutputRef)
    (f : List InputRef → List InputRef) : (g.modifyConsumers o f).binding? j = g.binding? j := by
  simp only [binding?, node?, modifyConsumers, List.getElem?_modify]
  cases g.nodes[j.node]? with
  | none => rfl
  | some n => by_cases h : o.node = j.node <;> simp [h]

theorem binding?_setInput (g : Graph) (i j : InputRef) (b : Binding) :
    (g.setInput i b).binding? j =
      if j = i then (g.binding? j).map fun _ => b else g.binding? j := by
  obtain ⟨node, input⟩ := i
  obtain ⟨node', input'⟩ := j
  simp only [binding?, node?, setInput, List.getElem?_modify, InputRef.mk.injEq]
  cases hn : g.nodes[node']? with
  | none => simp
  | some n =>
    by_cases hnode : node = node'
    · subst hnode
      by_cases hinput : input = input'
      · subst hinput
        simp [List.getElem?_set_self']
        cases n.inputs[input]? <;> rfl
      · simp [List.getElem?_set_ne hinput, Ne.symm hinput]
    · simp [hnode, Ne.symm hnode]

theorem outline_disconnect (g : Graph) (i : InputRef) : (g.disconnect i).outline = g.outline := by
  unfold disconnect
  split <;> simp

theorem binding?_disconnect (g : Graph) (i j : InputRef) :
    (g.disconnect i).binding? j =
      if j = i then (g.binding? j).map fun _ => .unbound else g.binding? j := by
  unfold disconnect
  split
  · next h =>
    by_cases hj : j = i
    · subst hj
      simp [h]
    · simp [hj]
  · rw [binding?_modifyConsumers, binding?_setInput]
  · rw [binding?_setInput]

private theorem outline_unbindAll (l : List InputRef) (g : Graph) :
    (l.foldl (fun g i => g.setInput i .unbound) g).outline = g.outline := by
  induction l generalizing g with
  | nil => rfl
  | cons i rest ih => rw [List.foldl_cons, ih, outline_setInput]

private theorem binding?_unbindAll (l : List InputRef) (g : Graph) (j : InputRef) :
    (l.foldl (fun g i => g.setInput i .unbound) g).binding? j =
      if j ∈ l then (g.binding? j).map fun _ => .unbound else g.binding? j := by
  induction l generalizing g with
  | nil => simp
  | cons i rest ih =>
    rw [List.foldl_cons, ih, binding?_setInput]
    by_cases hi : j = i
    · subst hi
      cases g.binding? j <;> simp
    · simp [hi]

theorem outline_disconnectAll (g : Graph) (o : OutputRef) :
    (g.disconnectAll o).outline = g.outline := by
  unfold disconnectAll
  split
  · rfl
  · rw [outline_unbindAll, outline_modifyConsumers]

/-- Only the recorded consumers of the output lose what they are bound to. -/
theorem binding?_disconnectAll (g : Graph) (o : OutputRef) (j : InputRef) :
    (g.disconnectAll o).binding? j =
      if j ∈ (g.consumers? o).getD [] then (g.binding? j).map fun _ => .unbound
      else g.binding? j := by
  unfold disconnectAll
  split
  · next h => simp [h]
  · next h => rw [binding?_unbindAll, binding?_modifyConsumers, h, Option.getD_some]

theorem checkInput_eq_ok (h : g.checkInput i = .ok ()) : ∃ b, g.binding? i = some b := by
  unfold checkInput at h
  split at h
  · simp at h
  · next n hn =>
    split at h
    · next hlt => exact ⟨n.inputs[i.input], by simp [binding?, hn, hlt]⟩
    · simp at h

theorem checkOutput_eq_ok (h : g.checkOutput o = .ok ()) :
    ∃ n, g.node? o.node = some n ∧ o.output < n.consumers.length := by
  unfold checkOutput at h
  split at h
  · simp at h
  · next n hn =>
    split at h
    · next hlt => exact ⟨n, hn, hlt⟩
    · simp at h

/-- Connecting succeeds on an output and an input that exist, and only there. -/
theorem connect_eq_ok (h : g.connect o i = .ok g') :
    g.checkOutput o = .ok () ∧ g.checkInput i = .ok () ∧
      g' = ((g.disconnect i).setInput i (.output o)).modifyConsumers o (InputRef.insert i) := by
  unfold connect at h
  cases ho : g.checkOutput o with
  | error e => simp [ho, bind, Except.bind] at h
  | ok _ =>
    cases hi : g.checkInput i with
    | error e => simp [ho, hi, bind, Except.bind] at h
    | ok _ =>
      simp only [ho, hi, bind, Except.bind, Except.ok.injEq] at h
      exact ⟨rfl, rfl, h.symm⟩

theorem bindLeaf_eq_ok {l : Leaf} (h : g.bindLeaf i l = .ok g') :
    g.checkInput i = .ok () ∧ g' = (g.disconnect i).setInput i (.leaf l) := by
  unfold bindLeaf at h
  cases hi : g.checkInput i with
  | error e => simp [hi, bind, Except.bind] at h
  | ok _ =>
    simp only [hi, bind, Except.bind, Except.ok.injEq] at h
    exact ⟨rfl, h.symm⟩

theorem outline_connect (h : g.connect o i = .ok g') : g'.outline = g.outline := by
  obtain ⟨-, -, rfl⟩ := connect_eq_ok h
  rw [outline_modifyConsumers, outline_setInput, outline_disconnect]

theorem outline_bindLeaf {l : Leaf} (h : g.bindLeaf i l = .ok g') : g'.outline = g.outline := by
  obtain ⟨-, rfl⟩ := bindLeaf_eq_ok h
  rw [outline_setInput, outline_disconnect]

private theorem binding?_rebind (g : Graph) (i j : InputRef) (b : Binding)
    (hi : ∃ c, g.binding? i = some c) :
    ((g.disconnect i).setInput i b).binding? j = if j = i then some b else g.binding? j := by
  rw [binding?_setInput, binding?_disconnect]
  by_cases hj : j = i
  · subst hj
    obtain ⟨c, hc⟩ := hi
    simp [hc]
  · simp [hj]

theorem binding?_connect (h : g.connect o i = .ok g') (j : InputRef) :
    g'.binding? j = if j = i then some (.output o) else g.binding? j := by
  obtain ⟨-, hi, rfl⟩ := connect_eq_ok h
  rw [binding?_modifyConsumers, binding?_rebind g i j _ (checkInput_eq_ok hi)]

theorem binding?_bindLeaf {l : Leaf} (h : g.bindLeaf i l = .ok g') (j : InputRef) :
    g'.binding? j = if j = i then some (.leaf l) else g.binding? j := by
  obtain ⟨hi, rfl⟩ := bindLeaf_eq_ok h
  rw [binding?_rebind g i j _ (checkInput_eq_ok hi)]

end Graph

end MaterialGraph
