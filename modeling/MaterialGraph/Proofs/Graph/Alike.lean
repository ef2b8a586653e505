import Mathlib.Data.List.Forall2
import MaterialGraph.Graph.Reach

/-!
Graphs of which some nodes correspond to each other. Nodes that correspond are of one
type, and their inputs are bound to the same leaves and to outputs of nodes that
correspond again. Main statement: walks from corresponding starts visit corresponding
nodes in the same order.
-/

namespace MaterialGraph

variable {I : Nat → Nat → Prop} {n n' : Node} {g g' : Graph} {i i' : Nat}
  {unvisited unvisited' starts starts' visited visited' : List Nat}

/-- Bindings that are the same up to corresponding nodes. -/
inductive Binding.Alike (I : Nat → Nat → Prop) : Binding → Binding → Prop
  | unbound : Alike I .unbound .unbound
  | leaf (l : Leaf) : Alike I (.leaf l) (.leaf l)
  | output {i i' : Nat} (h : I i i') (k : Nat) : Alike I (.output ⟨i, k⟩) (.output ⟨i', k⟩)

theorem Binding.Alike.symm {b b' : Binding} (h : b.Alike I b') : b'.Alike (flip I) b := by
  cases h with
  | unbound => exact .unbound
  | leaf l => exact .leaf l
  | output hi k => exact .output (show flip I _ _ from hi) k

structure Node.Alike (I : Nat → Nat → Prop) (n n' : Node) : Prop where
  type : n.type = n'.type
  inputs : List.Forall₂ (Binding.Alike I) n.inputs n'.inputs

namespace Node.Alike

theorem symm (h : n.Alike I n') : n'.Alike (flip I) n where
  type := h.type.symm
  inputs := h.inputs.flip.imp fun _ _ => Binding.Alike.symm

theorem producers (h : n.Alike I n') : List.Forall₂ I n.producers n'.producers := by
  refine List.rel_filterMap (fun b b' hb => ?_) h.inputs
  cases hb with
  | unbound => exact .none
  | leaf l => exact .none
  | output hi k => exact .some hi

theorem leaves (h : n.Alike I n') : n.leaves = n'.leaves := by
  have hinputs := h.inputs
  unfold Node.leaves
  rw [h.type]
  generalize n.inputs = inputs, n'.inputs = inputs', n'.type.inputs = pins at hinputs ⊢
  induction hinputs generalizing pins with
  | nil => rfl
  | cons hb _ ih =>
    cases pins with
    | nil => rfl
    | cons pin rest =>
      rw [List.zip_cons_cons, List.zip_cons_cons, List.filterMap_cons, List.filterMap_cons, ih rest]
      cases hb with
      | unbound => rfl
      | leaf l => rfl
      | output hi k => rfl

end Node.Alike

namespace Graph

/-- A node corresponds to one node at most, and nodes that correspond are alike. -/
structure Alike (I : Nat → Nat → Prop) (g g' : Graph) : Prop where
  unique : ∀ i i' j j', I i i' → I j j' → (i = j ↔ i' = j')
  nodes : ∀ i i', I i i' → ∃ n n', g.node? i = some n ∧ g'.node? i' = some n' ∧ n.Alike I n'

/-- Nodes of two graphs, of which corresponding ones are both there or both left out. -/
structure Matched (I : Nat → Nat → Prop) (l l' : List Nat) : Prop where
  nodup : l.Nodup
  nodup' : l'.Nodup
  mem_iff : ∀ i i', I i i' → (i ∈ l ↔ i' ∈ l')

namespace Alike

theorem symm (h : g.Alike I g') : g'.Alike (flip I) g where
  unique i i' j j' hi hj := (h.unique i' i j' j hi hj).symm
  nodes i i' hi := by
    obtain ⟨n, n', hn, hn', halike⟩ := h.nodes i' i hi
    exact ⟨n', n, hn', hn, halike.symm⟩

variable (h : g.Alike I g')
include h

theorem matched_ids : Matched I g.ids g'.ids where
  nodup := List.nodup_range
  nodup' := List.nodup_range
  mem_iff i i' hi := by
    obtain ⟨n, n', hn, hn', -⟩ := h.nodes i i' hi
    have hlt : i < g.size := (List.getElem?_eq_some_iff.1 hn).1
    have hlt' : i' < g'.size := (List.getElem?_eq_some_iff.1 hn').1
    exact iff_of_true (List.mem_range.2 hlt) (List.mem_range.2 hlt')

theorem matched_erase (hunvisited : Matched I unvisited unvisited') (hi : I i i') :
    Matched I (unvisited.erase i) (unvisited'.erase i') where
  nodup := hunvisited.nodup.erase i
  nodup' := hunvisited.nodup'.erase i'
  mem_iff j j' hj := by
    rw [hunvisited.nodup.mem_erase_iff, hunvisited.nodup'.mem_erase_iff,
      hunvisited.mem_iff j j' hj, Ne, Ne, h.unique j j' i i' hj hi]

theorem mem_iff (hvisited : List.Forall₂ I visited visited') (hi : I i i') :
    i ∈ visited ↔ i' ∈ visited' := by
  induction hvisited with
  | nil => exact iff_of_false List.not_mem_nil List.not_mem_nil
  | cons hj _ ih => rw [List.mem_cons, List.mem_cons, ih, h.unique _ _ _ _ hi hj]

theorem matched_filter (hunvisited : Matched I unvisited unvisited')
    (hvisited : List.Forall₂ I visited visited') :
    Matched I (unvisited.filter fun id => !visited.contains id)
      (unvisited'.filter fun id => !visited'.contains id) where
  nodup := hunvisited.nodup.filter _
  nodup' := hunvisited.nodup'.filter _
  mem_iff j j' hj := by
    have hcontains : visited.contains j = visited'.contains j' := by
      rw [Bool.eq_iff_iff, List.contains_iff_mem, List.contains_iff_mem]
      exact h.mem_iff hvisited hj
    rw [List.mem_filter, List.mem_filter, hunvisited.mem_iff j j' hj, hcontains]

theorem producers (hi : I i i') : List.Forall₂ I ((g.node? i).elim [] Node.producers)
    ((g'.node? i').elim [] Node.producers) := by
  obtain ⟨n, n', hn, hn', halike⟩ := h.nodes i i' hi
  rw [hn, hn']
  exact halike.producers

theorem walk (hunvisited : Matched I unvisited unvisited') (hstarts : List.Forall₂ I starts starts') :
    List.Forall₂ I (g.walk unvisited starts) (g'.walk unvisited' starts') := by
  induction unvisited, starts using walk.induct g generalizing unvisited' starts'
  case case1 unvisited =>
    cases hstarts
    rw [Graph.walk, Graph.walk]
    exact .nil
  case case2 unvisited id rest hid _ _ ih =>
    cases hstarts with
    | @cons _ id' _ rest' hi hrest =>
      have hid' := (hunvisited.mem_iff id id' hi).1 hid
      rw [Graph.walk, dif_pos hid, Graph.walk, dif_pos hid']
      have hstack := List.rel_append (List.rel_reverse (h.producers hi)) hrest
      exact .cons hi (ih (h.matched_erase hunvisited hi) hstack)
  case case3 unvisited id rest hid ih =>
    cases hstarts with
    | @cons _ id' _ rest' hi hrest =>
      have hid' := mt (hunvisited.mem_iff id id' hi).2 hid
      rw [Graph.walk, dif_neg hid, Graph.walk, dif_neg hid']
      exact ih hunvisited hrest

/-- Corresponding nodes are visited in the same order. -/
theorem walkFrom (hunvisited : Matched I unvisited unvisited')
    (hstarts : List.Forall₂ I starts starts') :
    List.Forall₂ I (g.walkFrom unvisited starts) (g'.walkFrom unvisited' starts') := by
  induction hstarts generalizing unvisited unvisited' with
  | nil => exact .nil
  | cons hi _ ih =>
    have hvisited := h.walk hunvisited (.cons hi .nil)
    exact List.rel_append hvisited (ih (h.matched_filter hunvisited hvisited))

theorem leaves (hvisited : List.Forall₂ I visited visited') :
    (visited.flatMap fun id => (g.node? id).elim [] Node.leaves) =
      visited'.flatMap fun id => (g'.node? id).elim [] Node.leaves := by
  induction hvisited with
  | nil => rfl
  | cons hi _ ih =>
    obtain ⟨n, n', hn, hn', halike⟩ := h.nodes _ _ hi
    rw [List.flatMap_cons, List.flatMap_cons, ih, hn, hn', Option.elim_some, Option.elim_some,
      halike.leaves]

end Alike

end Graph

end MaterialGraph
