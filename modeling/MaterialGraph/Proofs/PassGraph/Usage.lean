import MaterialGraph.Proofs.Graph.Reach
import MaterialGraph.Proofs.PassGraph.Live

/-!
The usage of a pass. Main statement: a usage has exactly the leaves that are
bound to an output or to an input of a node that an output depends on.
-/

namespace MaterialGraph

open Relation (ReflTransGen)

namespace Usage

variable {u : Usage} {l l' : Leaf}

def Has (u : Usage) (l : Leaf) : Prop :=
  l.index ∈ u.indices l.source

theorem not_has_empty (l : Leaf) : ¬empty.Has l := by
  unfold Has indices empty
  rw [Fin.getElem_fin, Vector.getElem_replicate]
  exact IndexSet.not_mem_empty l.index

theorem has_add : (u.add l).Has l' ↔ l' = l ∨ u.Has l' := by
  obtain ⟨source, index⟩ := l
  obtain ⟨source', index'⟩ := l'
  simp only [Has, indices_add, Leaf.mk.injEq]
  by_cases h : source' = source
  · subst h
    simp only [if_true, IndexSet.mem_insert, true_and]
  · simp only [h, if_false, false_and, false_or]

theorem has_addTextureType {type : BasicType} : (u.addTextureType l type).Has l' ↔ u.Has l' := by
  unfold addTextureType
  split
  · rfl
  · rfl

theorem has_foldl_add (leaves : List Leaf) : (leaves.foldl add u).Has l ↔ l ∈ leaves ∨ u.Has l := by
  induction leaves generalizing u with
  | nil => simp
  | cons first rest ih =>
    rw [List.foldl_cons, ih, has_add, List.mem_cons, or_left_comm, or_assoc]

theorem has_foldl_input (leaves : List (Leaf × Pin)) :
    (leaves.foldl (fun u e => (u.add e.1).addTextureType e.1 e.2.type) u).Has l ↔
      (∃ pin, (l, pin) ∈ leaves) ∨ u.Has l := by
  induction leaves generalizing u with
  | nil => simp
  | cons first rest ih =>
    obtain ⟨l₀, pin₀⟩ := first
    rw [List.foldl_cons, ih, has_addTextureType, has_add]
    simp only [List.mem_cons, Prod.mk.injEq, exists_or, exists_and_left, exists_eq, and_true]
    rw [or_left_comm, or_assoc]

end Usage

/-- A node has as many inputs as its type has pins, so each leaf has its pin. -/
theorem Node.mem_leaves_iff {n : Node} (h : n.inputs.length = n.type.inputs.length) {l : Leaf} :
    (∃ pin, (l, pin) ∈ n.leaves) ↔ .leaf l ∈ n.inputs := by
  unfold leaves
  simp only [List.mem_filterMap]
  constructor
  · rintro ⟨pin, ⟨b, pin'⟩, hmem, heq⟩
    cases b with
    | unbound => cases heq
    | output ref => cases heq
    | leaf l' =>
      cases heq
      exact (List.of_mem_zip hmem).1
  · intro hmem
    obtain ⟨k, hk⟩ := List.getElem?_of_mem hmem
    have hlt : k < n.type.inputs.length := h ▸ (List.getElem?_eq_some_iff.1 hk).1
    have hpair : (.leaf l, n.type.inputs[k]) ∈ n.inputs.zip n.type.inputs := by
      refine List.mem_of_getElem? (i := k) ?_
      rw [List.getElem?_zip_eq_some]
      exact ⟨hk, List.getElem?_eq_getElem hlt⟩
    exact ⟨_, _, hpair, rfl⟩

theorem Output.mem_all (o : Output) : o ∈ Output.all := by
  cases o <;> decide

namespace PassGraph

variable {p : PassGraph} {id : Nat} {l : Leaf}

theorem mem_starts_iff : id ∈ p.starts ↔ ∃ o ref, p.output o = .output ref ∧ ref.node = id := by
  unfold starts
  rw [List.mem_filterMap]
  constructor
  · rintro ⟨o, -, ho⟩
    split at ho
    · next ref href => exact ⟨o, ref, href, Option.some.inj ho⟩
    · cases ho
  · rintro ⟨o, ref, href, rfl⟩
    exact ⟨o, Output.mem_all o, by rw [href]⟩

theorem mem_outputLeaves_iff : l ∈ p.outputLeaves ↔ ∃ o, p.output o = .leaf l := by
  unfold outputLeaves
  rw [List.mem_filterMap]
  constructor
  · rintro ⟨o, -, ho⟩
    split at ho
    · next l' hl' => exact ⟨o, by rw [hl', Option.some.inj ho]⟩
    · cases ho
  · rintro ⟨o, ho⟩
    exact ⟨o, Output.mem_all o, by rw [ho]⟩

/-- A pass graph whose wires, those to its outputs included, come from outputs of its nodes. -/
structure Linked (p : PassGraph) : Prop where
  wellWired : p.graph.WellWired
  outputs : ∀ o ref, p.output o = .output ref → p.graph.HasOutput ref

variable (h : p.Linked)
include h

theorem mem_visits_iff : id ∈ p.visits ↔ p.Live id := by
  have hstarts : ∀ s ∈ p.starts, s < p.graph.size := by
    intro s hs
    obtain ⟨o, ref, ho, rfl⟩ := mem_starts_iff.1 hs
    obtain ⟨n, hn, -⟩ := h.outputs o ref ho
    exact Graph.node?_lt hn
  rw [visits, Graph.mem_walkFrom_iff h.wellWired hstarts]
  constructor
  · rintro ⟨s, hs, hpath⟩
    obtain ⟨o, ref, ho, rfl⟩ := mem_starts_iff.1 hs
    exact ⟨o, ref, ho, hpath⟩
  · rintro ⟨o, ref, ho, hpath⟩
    exact ⟨ref.node, mem_starts_iff.2 ⟨o, ref, ho, rfl⟩, hpath⟩

theorem mem_inputLeaves_iff : (∃ pin, (l, pin) ∈ p.inputLeaves) ↔
    ∃ id n, p.Live id ∧ p.graph.node? id = some n ∧ .leaf l ∈ n.inputs := by
  unfold inputLeaves
  simp only [List.mem_flatMap, mem_visits_iff h]
  constructor
  · rintro ⟨pin, id, hlive, hmem⟩
    cases hn : p.graph.node? id with
    | none =>
      rw [hn] at hmem
      cases hmem
    | some n =>
      rw [hn] at hmem
      exact ⟨id, n, hlive, hn, (Node.mem_leaves_iff (h.wellWired.inputs_length hn)).1 ⟨pin, hmem⟩⟩
  · rintro ⟨id, n, hlive, hn, hmem⟩
    obtain ⟨pin, hpin⟩ := (Node.mem_leaves_iff (h.wellWired.inputs_length hn)).2 hmem
    exact ⟨pin, id, hlive, by rw [hn]; exact hpin⟩

/-- The usage of a pass has the leaves that its outputs depend on, and no others. -/
theorem has_usage_iff : p.usage.Has l ↔ p.LiveLeaf l := by
  unfold usage
  rw [Usage.has_foldl_input, mem_inputLeaves_iff h, Usage.ofLeaves, Usage.has_foldl_add,
    mem_outputLeaves_iff]
  simp only [Usage.not_has_empty, or_false]
  exact or_comm

end PassGraph

end MaterialGraph
