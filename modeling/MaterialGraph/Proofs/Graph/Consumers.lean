import MaterialGraph.Proofs.Graph.Built

/-!
The inputs that are recorded at an output. In the graphs that the operations
build they are in ascending order, and an input is recorded at exactly the output
it is wired to.
-/

namespace MaterialGraph

namespace InputRef

variable {i j k : InputRef} {l : List InputRef}

theorem lt_iff : i.lt j ↔ i.node < j.node ∨ i.node = j.node ∧ i.input < j.input := by
  simp [lt]

theorem lt_irrefl (i : InputRef) : ¬i.lt i := by
  simp [lt_iff]

theorem lt_trans (hij : i.lt j) (hjk : j.lt k) : i.lt k := by
  rw [lt_iff] at *
  omega

theorem lt_of_not_lt_of_ne (hlt : ¬i.lt j) (hne : i ≠ j) : j.lt i := by
  have hne' : ¬(i.node = j.node ∧ i.input = j.input) := by
    intro heq
    exact hne (by cases i; cases j; simp_all)
  rw [lt_iff] at *
  omega

theorem mem_insert : j ∈ insert i l ↔ j = i ∨ j ∈ l := by
  induction l with
  | nil => simp [insert]
  | cons k rest ih =>
    rw [insert]
    split
    · rw [List.mem_cons]
    · split
      · next heq =>
        subst heq
        simp
      · rw [List.mem_cons, ih, List.mem_cons, or_left_comm]

theorem ascending_insert (h : l.Pairwise fun a b => a.lt b) :
    (insert i l).Pairwise fun a b => a.lt b := by
  induction l with
  | nil => simp [insert]
  | cons k rest ih =>
    obtain ⟨hhead, hrest⟩ := List.pairwise_cons.1 h
    rw [insert]
    split
    · next hlt =>
      refine List.pairwise_cons.2 ⟨fun j hj => ?_, h⟩
      rcases List.mem_cons.1 hj with rfl | hj
      · exact hlt
      · exact lt_trans hlt (hhead j hj)
    · next hlt =>
      split
      · exact h
      · next hne =>
        refine List.pairwise_cons.2 ⟨fun j hj => ?_, ih hrest⟩
        rcases mem_insert.1 hj with rfl | hj
        · exact lt_of_not_lt_of_ne hlt hne
        · exact hhead j hj

theorem nodup_of_ascending (h : l.Pairwise fun a b => a.lt b) : l.Nodup := by
  refine List.Pairwise.imp (fun {a b} hlt heq => ?_) h
  subst heq
  exact lt_irrefl a hlt

end InputRef

namespace Graph

variable {g g' : Graph} {i j : InputRef} {o o' : OutputRef} {l : Leaf}

/-- Whether an input is recorded at an output. -/
def Recorded (g : Graph) (o : OutputRef) (i : InputRef) : Prop :=
  ∃ inputs, g.consumers? o = some inputs ∧ i ∈ inputs

@[simp]
theorem consumers?_setInput (g : Graph) (i : InputRef) (b : Binding) (o : OutputRef) :
    (g.setInput i b).consumers? o = g.consumers? o := by
  simp only [consumers?, node?, setInput, List.getElem?_modify]
  cases g.nodes[o.node]? with
  | none => rfl
  | some n => by_cases h : i.node = o.node <;> simp [h]

theorem consumers?_modifyConsumers (g : Graph) (o o' : OutputRef)
    (f : List InputRef → List InputRef) :
    (g.modifyConsumers o f).consumers? o' =
      if o' = o then (g.consumers? o').map f else g.consumers? o' := by
  obtain ⟨node, output⟩ := o
  obtain ⟨node', output'⟩ := o'
  simp only [consumers?, node?, modifyConsumers, List.getElem?_modify, OutputRef.mk.injEq]
  cases g.nodes[node']? with
  | none => simp
  | some n =>
    by_cases hnode : node = node'
    · subst hnode
      by_cases houtput : output = output'
      · subst houtput
        simp
      · simp [houtput, Ne.symm houtput]
    · simp [hnode, Ne.symm hnode]

theorem recorded_setInput {b : Binding} : (g.setInput i b).Recorded o j ↔ g.Recorded o j := by
  rw [Recorded, consumers?_setInput, Recorded]

theorem recorded_modifyConsumers {f : List InputRef → List InputRef} :
    (g.modifyConsumers o f).Recorded o' j ↔
      if o' = o then ∃ inputs, g.consumers? o = some inputs ∧ j ∈ f inputs
      else g.Recorded o' j := by
  rw [Recorded, consumers?_modifyConsumers]
  by_cases h : o' = o
  · subst h
    simp only [if_true, Option.map_eq_some_iff]
    constructor
    · intro hrecorded
      obtain ⟨_, ⟨inputs, hinputs, rfl⟩, hmem⟩ := hrecorded
      exact ⟨inputs, hinputs, hmem⟩
    · intro hrecorded
      obtain ⟨inputs, hinputs, hmem⟩ := hrecorded
      exact ⟨f inputs, ⟨inputs, hinputs, rfl⟩, hmem⟩
  · simp only [if_neg h, Recorded]

theorem exists_consumers?_iff :
    (∃ inputs, g.consumers? o = some inputs) ↔
      ∃ n, g.node? o.node = some n ∧ o.output < n.consumers.length := by
  rw [consumers?]
  cases g.node? o.node with
  | none => simp
  | some n => simp [← Option.isSome_iff_exists]

/-- Rewiring keeps the outputs that there are. -/
theorem exists_consumers?_of_outline (h : g'.outline = g.outline)
    (ho : ∃ inputs, g.consumers? o = some inputs) : ∃ inputs, g'.consumers? o = some inputs := by
  rw [exists_consumers?_iff] at *
  obtain ⟨n, hn, hlt⟩ := ho
  obtain ⟨n', hn', heq⟩ := node?_of_outline h hn
  have hlength : n'.consumers.length = n.consumers.length := congrArg (fun e => e.2.2.2) heq
  exact ⟨n', hn', by omega⟩

theorem recorded_insert (ho : ∃ inputs, g.consumers? o = some inputs) :
    (g.modifyConsumers o (InputRef.insert i)).Recorded o' j ↔
      o' = o ∧ j = i ∨ g.Recorded o' j := by
  rw [recorded_modifyConsumers]
  by_cases h : o' = o
  · subst h
    obtain ⟨inputs, hinputs⟩ := ho
    simp [Recorded, hinputs, InputRef.mem_insert]
  · simp [h]

/-- Lists of consumers stay ascending where each change keeps them so. -/
theorem ascending_modifyConsumers {f : List InputRef → List InputRef}
    (h : ∀ o inputs, g.consumers? o = some inputs → inputs.Pairwise fun i j => i.lt j)
    (hf : ∀ inputs : List InputRef, inputs.Pairwise (fun i j => i.lt j) →
      (f inputs).Pairwise fun i j => i.lt j) :
    ∀ o' inputs, (g.modifyConsumers o f).consumers? o' = some inputs →
      inputs.Pairwise fun i j => i.lt j := by
  intro o' inputs hinputs
  rw [consumers?_modifyConsumers] at hinputs
  split at hinputs
  · obtain ⟨before, hbefore, rfl⟩ := Option.map_eq_some_iff.1 hinputs
    exact hf before (h o' before hbefore)
  · exact h o' inputs hinputs

private theorem consumers?_unbindAll (l : List InputRef) (g : Graph) (o : OutputRef) :
    (l.foldl (fun g i => g.setInput i .unbound) g).consumers? o = g.consumers? o := by
  induction l generalizing g with
  | nil => rfl
  | cons i rest ih => rw [List.foldl_cons, ih, consumers?_setInput]

theorem consumers?_disconnectAll (g : Graph) (o o' : OutputRef) :
    (g.disconnectAll o).consumers? o' =
      if o' = o then (g.consumers? o').map fun _ => [] else g.consumers? o' := by
  unfold disconnectAll
  split
  · next h =>
    split
    · next heq => rw [heq, h, Option.map_none]
    · rfl
  · rw [consumers?_unbindAll, consumers?_modifyConsumers]

theorem recorded_disconnectAll :
    (g.disconnectAll o).Recorded o' j ↔ o' ≠ o ∧ g.Recorded o' j := by
  rw [Recorded, consumers?_disconnectAll]
  by_cases h : o' = o
  · simp only [h, ne_eq, not_true, false_and, iff_false]
    intro hrecorded
    obtain ⟨_, hinputs, hmem⟩ := hrecorded
    obtain ⟨-, -, rfl⟩ := Option.map_eq_some_iff.1 hinputs
    cases hmem
  · rw [if_neg h, ← Recorded]
    exact (and_iff_right h).symm

/-- A new node records no inputs. -/
theorem consumers?_instantiate {name : String} {type : NodeType} {inputs : List InputRef}
    (h : (g.instantiate name type).consumers? o = some inputs) :
    inputs = [] ∨ g.consumers? o = some inputs := by
  rw [consumers?, node?_instantiate] at h
  split at h
  · simp only [Node.ofType, Option.bind_some, List.getElem?_map, Option.map_eq_some_iff] at h
    obtain ⟨-, -, heq⟩ := h
    exact .inl heq.symm
  · exact .inr h

theorem recorded_instantiate {name : String} {type : NodeType} :
    (g.instantiate name type).Recorded o i ↔ g.Recorded o i := by
  constructor
  · intro h
    obtain ⟨inputs, hinputs, hmem⟩ := h
    rcases consumers?_instantiate hinputs with rfl | hinputs
    · cases hmem
    · exact ⟨inputs, hinputs, hmem⟩
  · intro h
    obtain ⟨inputs, hinputs, hmem⟩ := h
    obtain ⟨n, hn, -⟩ := exists_consumers?_iff.1 ⟨inputs, hinputs⟩
    have hne : o.node ≠ g.size := Nat.ne_of_lt (node?_lt hn)
    exact ⟨inputs, by rwa [consumers?, node?_instantiate, if_neg hne], hmem⟩

/-- A new node is wired to no output. -/
theorem binding?_instantiate_eq_output {name : String} {type : NodeType} :
    (g.instantiate name type).binding? i = some (.output o) ↔
      g.binding? i = some (.output o) := by
  rw [binding?, binding?, node?_instantiate]
  by_cases h : i.node = g.size
  · have hnone : g.node? i.node = none := List.getElem?_eq_none (Nat.le_of_eq h.symm)
    rw [if_pos h, hnone, Option.bind_some, Option.bind_none, Node.ofType, List.getElem?_map]
    cases type.inputs[i.input]? <;> simp
  · rw [if_neg h]

/-- The records of a graph agree with its wires. -/
structure Consistent (g : Graph) : Prop where
  wellWired : g.WellWired
  recorded_iff : ∀ o i, g.Recorded o i ↔ g.binding? i = some (.output o)
  ascending : ∀ o inputs, g.consumers? o = some inputs → inputs.Pairwise fun i j => i.lt j

namespace Consistent

theorem empty : Graph.empty.Consistent where
  wellWired := .empty
  recorded_iff o i := by simp [Recorded, consumers?, binding?, node?, Graph.empty]
  ascending o inputs h := by simp [consumers?, node?, Graph.empty] at h

theorem instantiate (h : g.Consistent) (name : String) (type : NodeType) :
    (g.instantiate name type).Consistent where
  wellWired := h.wellWired.instantiate name type
  recorded_iff o i := by
    rw [recorded_instantiate, h.recorded_iff, binding?_instantiate_eq_output]
  ascending o inputs hinputs := by
    rcases consumers?_instantiate hinputs with rfl | hinputs
    · exact .nil
    · exact h.ascending o inputs hinputs

/-- An input that is disconnected is recorded nowhere, and the others where they were. -/
theorem recorded_disconnect (h : g.Consistent) (i : InputRef) :
    (g.disconnect i).Recorded o j ↔ j ≠ i ∧ g.Recorded o j := by
  have hother : g.binding? i ≠ some (.output o) → (g.Recorded o j ↔ j ≠ i ∧ g.Recorded o j) := by
    intro hb
    refine ⟨fun hrecorded => ⟨?_, hrecorded⟩, And.right⟩
    rintro rfl
    exact hb ((h.recorded_iff o j).1 hrecorded)
  unfold Graph.disconnect
  split
  · next hb => exact hother (by simp [hb])
  · next source hb =>
    rw [recorded_modifyConsumers]
    by_cases ho : o = source
    · subst ho
      simp only [if_true, consumers?_setInput, Recorded]
      constructor
      · intro hrecorded
        obtain ⟨inputs, hinputs, hmem⟩ := hrecorded
        have hnodup := InputRef.nodup_of_ascending (h.ascending o inputs hinputs)
        obtain ⟨hne, hmem⟩ := (hnodup.mem_erase_iff).1 hmem
        exact ⟨hne, inputs, hinputs, hmem⟩
      · intro hrecorded
        obtain ⟨hne, inputs, hinputs, hmem⟩ := hrecorded
        exact ⟨inputs, hinputs, (List.mem_erase_of_ne hne).2 hmem⟩
    · rw [if_neg ho, recorded_setInput]
      exact hother (by simp [hb, Ne.symm ho])
  · next b hnot hb =>
    rw [recorded_setInput]
    exact hother fun heq => hnot o (Option.some.inj (hb.symm.trans heq))

theorem ascending_disconnect (h : g.Consistent) (i : InputRef) :
    ∀ o inputs, (g.disconnect i).consumers? o = some inputs →
      inputs.Pairwise fun i j => i.lt j := by
  unfold Graph.disconnect
  split
  · exact h.ascending
  · exact ascending_modifyConsumers (by simpa using h.ascending) fun inputs hinputs =>
      hinputs.erase i
  · simpa using h.ascending

theorem disconnect (h : g.Consistent) (i : InputRef) : (g.disconnect i).Consistent where
  wellWired := h.wellWired.disconnect i
  recorded_iff o j := by
    rw [h.recorded_disconnect, h.recorded_iff, binding?_disconnect]
    by_cases hj : j = i
    · simp [hj]
    · simp [hj]
  ascending := h.ascending_disconnect i

theorem connect (h : g.Consistent) (hg : g.connect o i = .ok g') : g'.Consistent where
  wellWired := h.wellWired.connect hg
  recorded_iff o' j := by
    rw [binding?_connect hg]
    obtain ⟨ho, hi, rfl⟩ := connect_eq_ok hg
    have hbefore := exists_consumers?_iff.2 (checkOutput_eq_ok ho)
    have houtput := exists_consumers?_of_outline (outline_disconnect g i) hbefore
    rw [recorded_insert (by simpa using houtput), recorded_setInput, h.recorded_disconnect,
      h.recorded_iff]
    by_cases hj : j = i
    · simp [hj, eq_comm]
    · simp [hj]
  ascending := by
    obtain ⟨ho, hi, rfl⟩ := connect_eq_ok hg
    refine ascending_modifyConsumers ?_ fun inputs hinputs => InputRef.ascending_insert hinputs
    simpa using h.ascending_disconnect i

theorem bindLeaf (h : g.Consistent) (hg : g.bindLeaf i l = .ok g') : g'.Consistent where
  wellWired := h.wellWired.bindLeaf hg
  recorded_iff o j := by
    rw [binding?_bindLeaf hg]
    obtain ⟨hi, rfl⟩ := bindLeaf_eq_ok hg
    rw [recorded_setInput, h.recorded_disconnect, h.recorded_iff]
    by_cases hj : j = i
    · simp [hj]
    · simp [hj]
  ascending := by
    obtain ⟨hi, rfl⟩ := bindLeaf_eq_ok hg
    simpa using h.ascending_disconnect i

theorem disconnectAll (h : g.Consistent) (o : OutputRef) : (g.disconnectAll o).Consistent where
  wellWired := h.wellWired.disconnectAll o
  recorded_iff o' j := by
    have hmem : j ∈ (g.consumers? o).getD [] ↔ g.binding? j = some (.output o) := by
      rw [← h.recorded_iff, Recorded]
      cases g.consumers? o <;> simp
    rw [recorded_disconnectAll, h.recorded_iff, binding?_disconnectAll]
    simp only [hmem]
    by_cases hj : g.binding? j = some (.output o)
    · simp [hj, eq_comm]
    · rw [if_neg hj]
      refine ⟨And.right, fun hb => ⟨?_, hb⟩⟩
      rintro rfl
      exact hj hb
  ascending o' inputs hinputs := by
    rw [consumers?_disconnectAll] at hinputs
    split at hinputs
    · obtain ⟨before, hbefore, rfl⟩ := Option.map_eq_some_iff.1 hinputs
      exact .nil
    · exact h.ascending o' inputs hinputs

end Consistent

theorem Built.consistent (h : g.Built) : g.Consistent := by
  induction h with
  | empty => exact .empty
  | instantiate name type _ ih => exact ih.instantiate name type
  | connect _ hg ih => exact ih.connect hg
  | bindLeaf _ hg ih => exact ih.bindLeaf hg
  | disconnect i _ ih => exact ih.disconnect i
  | disconnectAll o _ ih => exact ih.disconnectAll o

end Graph

end MaterialGraph
