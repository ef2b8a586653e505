import MaterialGraph.Body.Accessor
import MaterialGraph.Proofs.Body.Recursion
import MaterialGraph.Proofs.PassGraph.Reached

/-!
Emission on any graph, cyclic and incomplete ones included. Main statement: it ends,
with a body exactly if nothing that the outputs depend on lies on a cycle, has an
unbound input or reads a leaf without a text; a failure that names a cycle or an
unbound input names one that is there.
-/

namespace MaterialGraph.Body

open Relation (TransGen)

variable {p : PassGraph} {a : Accessors} {f : Failure}

theorem slotted_eq_error {l : Leaf} {text : String → String} {slot : Option Nat}
    (h : Accessors.slotted l text slot = .error f) : f = .fault (.unmappedLeaf l) := by
  cases slot with
  | none => exact (Except.error.inj h).symm
  | some k => cases h

/-- A leaf without a text has no slot or is of a source that is not read. -/
theorem text_eq_error {l : Leaf} (h : a.text l = .error f) :
    f = .fault (.unmappedLeaf l) ∨ f = .compile (.unaddressableSource l.source) := by
  unfold Accessors.text at h
  split at h
  all_goals first
    | exact .inl (slotted_eq_error h)
    | exact .inr (Except.error.inj h).symm
    | cases h

theorem Stops.cycle_of_recursiveNode {name : String}
    (h : Stops p a.text (.compile (.recursiveNode name))) :
    ∃ id n, p.Live id ∧ p.graph.node? id = some n ∧ n.name = name ∧
      TransGen p.graph.Feeds id id := by
  cases h with
  | cycle hlive hn hcycle => exact ⟨_, _, hlive, hn, rfl, hcycle⟩
  | leaf _ haccess => rcases text_eq_error haccess with heq | heq <;> cases heq

theorem Stops.unbound_of_unboundInput {name type input : String}
    (h : Stops p a.text (.compile (.unboundInput name type input))) :
    ∃ (id k : Nat) (n : Node) (pin : Pin), p.Live id ∧ p.graph.node? id = some n ∧
      n.name = name ∧ n.type.name = type ∧ n.inputs[k]? = some .unbound ∧
      n.type.inputs[k]? = some pin ∧ pin.name = input := by
  cases h with
  | unbound hlive hn hk hpin => exact ⟨_, _, _, _, hlive, hn, rfl, rfl, hk, hpin, rfl⟩
  | leaf _ haccess => rcases text_eq_error haccess with heq | heq <;> cases heq

/-- Emission of a pass, whatever its graph was built to be. -/
theorem ofPass_exact (p : PassGraph) (a : Accessors) (hbuilt : p.graph.Built)
    (hslots : ∀ o ref, p.output o = .output ref → p.graph.HasOutput ref) :
    (∀ depth, p.graph.size < depth →
      passWithin p a.text depth = .mk (some (ofPass p a.text))) ∧
    ((∃ body, ofPass p a.text = .ok body) ↔
      (∀ id, p.Live id → ¬TransGen p.graph.Feeds id id) ∧
      (∀ id n, p.Live id → p.graph.node? id = some n → .unbound ∉ n.inputs) ∧
      ∀ l, p.LiveLeaf l → ∃ t, a.text l = .ok t) ∧
    (∀ name, ofPass p a.text = .error (.compile (.recursiveNode name)) →
      ∃ id n, p.Live id ∧ p.graph.node? id = some n ∧ n.name = name ∧
        TransGen p.graph.Feeds id id) ∧
    (∀ name type input, ofPass p a.text = .error (.compile (.unboundInput name type input)) →
      ∃ (id k : Nat) (n : Node) (pin : Pin), p.Live id ∧ p.graph.node? id = some n ∧
        n.name = name ∧ n.type.name = type ∧ n.inputs[k]? = some .unbound ∧
        n.type.inputs[k]? = some pin ∧ pin.name = input) ∧
    ∀ f, ofPass p a.text = .error f → Stops p a.text f := by
  have h : p.Linked := ⟨hbuilt.wellWired, hslots⟩
  have hstops : ∀ f, ofPass p a.text = .error f → Stops p a.text f := by
    intro f hf
    rcases ofPass_outcome h a.text with ⟨body, hbody, -⟩ | ⟨f', hstops, hf'⟩
    · cases hbody.symm.trans hf
    · cases hf.symm.trans hf'
      exact hstops
  refine ⟨fun depth => passWithin_eq h, ⟨fun hbody => ?_, fun hall => ?_⟩, fun name hf => ?_,
    fun name type input hf => ?_, hstops⟩
  · obtain ⟨body, hbody⟩ := hbody
    rcases ofPass_outcome h a.text with ⟨-, -, hsound, htexts, -⟩ | ⟨f, -, hf⟩
    · exact ⟨hsound.acyclic, hsound.bound, htexts⟩
    · cases hbody.symm.trans hf
  · obtain ⟨hacyclic, hbound, htexts⟩ := hall
    rcases ofPass_cases ⟨h, hacyclic, hbound⟩ a.text with ⟨body, hbody, -⟩ | ⟨l, f, hl, hf, -⟩
    · exact ⟨body, hbody⟩
    · obtain ⟨t, ht⟩ := htexts l hl
      cases ht.symm.trans hf
  · exact (hstops _ hf).cycle_of_recursiveNode
  · exact (hstops _ hf).unbound_of_unboundInput

/-- A node that feeds another twice, and aside from them one that feeds itself and has an
unbound input. -/
def doubled : PassGraph where
  pass := .default
  graph := ⟨[
    { name := "tint"
      type := ⟨"Tint", [⟨"v", .float4, none, 0⟩], [⟨"r", .float4, none, -1⟩], none⟩
      inputs := [.leaf ⟨.color, 0⟩]
      consumers := [[⟨1, 0⟩, ⟨1, 1⟩]] },
    { name := "sum"
      type := ⟨"Add", [⟨"a", .float4, none, 0⟩, ⟨"b", .float4, none, 1⟩],
        [⟨"r", .float4, none, -1⟩], none⟩
      inputs := [.output ⟨0, 0⟩, .output ⟨0, 0⟩]
      consumers := [[]] },
    { name := "spare"
      type := ⟨"Add", [⟨"a", .float4, none, 0⟩, ⟨"b", .float4, none, 1⟩],
        [⟨"r", .float4, none, -1⟩], none⟩
      inputs := [.output ⟨2, 0⟩, .unbound]
      consumers := [[⟨2, 0⟩]] }]⟩
  color := .output ⟨1, 0⟩

theorem doubled_built : doubled.graph.Built := by
  have tint := Graph.Built.instantiate "tint" (doubled.graph.nodes[0]).type .empty
  have sum := Graph.Built.instantiate "sum" (doubled.graph.nodes[1]).type tint
  have spare := Graph.Built.instantiate "spare" (doubled.graph.nodes[2]).type sum
  have leaf := Graph.Built.bindLeaf (i := ⟨0, 0⟩) (l := ⟨.color, 0⟩) spare rfl
  have first := Graph.Built.connect (o := ⟨0, 0⟩) (i := ⟨1, 0⟩) leaf rfl
  have second := Graph.Built.connect (o := ⟨0, 0⟩) (i := ⟨1, 1⟩) first rfl
  exact .connect (o := ⟨2, 0⟩) (i := ⟨2, 0⟩) second rfl

theorem doubled_slots (o : Output) (ref : OutputRef) (ho : doubled.output o = .output ref) :
    ref = ⟨1, 0⟩ ∧ doubled.graph.HasOutput ref := by
  cases o with
  | color =>
    cases ho
    exact ⟨rfl, _, rfl, by decide⟩
  | alpha => cases ho
  | depth => cases ho

/-- What feeds a node of the sum comes before it. -/
theorem doubled_feeds {a b : Nat} (h : doubled.graph.Feeds a b) (hb : b ≤ 1) : a < b := by
  obtain ⟨n, hn, ref, href, rfl⟩ := h
  obtain rfl | rfl : b = 0 ∨ b = 1 := by omega
  · cases hn
    simp at href
  · cases hn
    have heq : ref = ⟨0, 0⟩ := by simpa using href
    rw [heq]
    decide

theorem doubled_live {id : Nat} (h : doubled.Live id) : id ≤ 1 := by
  refine h.mem_of_closed (S := (· ≤ 1)) (fun o ref ho => ?_) fun a b hab hb => ?_
  · obtain ⟨rfl, -⟩ := doubled_slots o ref ho
    exact Nat.le_refl 1
  · exact Nat.le_of_lt (Nat.lt_of_lt_of_le (doubled_feeds hab hb) hb)

theorem doubled_lt_of_transGen {a b : Nat} (h : TransGen doubled.graph.Feeds a b) (hb : b ≤ 1) :
    a < b := by
  induction h using TransGen.head_induction_on with
  | single hab => exact doubled_feeds hab hb
  | head hac _ ih =>
    exact Nat.lt_trans (doubled_feeds hac (Nat.le_of_lt (Nat.lt_of_lt_of_le ih hb))) ih

theorem ofPass_exact_doubled :
    doubled.graph.Built ∧ (∀ a : Accessors, ∃ body, ofPass doubled a.text = .ok body) ∧
      PassGraph.looped.graph.Built ∧
      ∀ a : Accessors, ¬∃ body, ofPass PassGraph.looped a.text = .ok body := by
  refine ⟨doubled_built, fun a => ?_, PassGraph.looped_built, fun a hbody => ?_⟩
  · obtain ⟨-, hiff, -⟩ := ofPass_exact doubled a doubled_built fun o ref ho =>
      (doubled_slots o ref ho).2
    refine hiff.2 ⟨fun id hlive hcycle => ?_, fun id n hlive hn => ?_, fun l hl => ?_⟩
    · exact Nat.lt_irrefl id (doubled_lt_of_transGen hcycle (doubled_live hlive))
    · have hle := doubled_live hlive
      obtain rfl | rfl : id = 0 ∨ id = 1 := by omega
      all_goals
        cases hn
        decide
    · have hcolor : l = ⟨.color, 0⟩ := by
        rcases hl with ⟨o, ho⟩ | ⟨id, n, hlive, hn, hmem⟩
        · cases o <;> cases ho
        · have hle := doubled_live hlive
          obtain rfl | rfl : id = 0 ∨ id = 1 := by omega
          · cases hn
            exact Binding.leaf.inj (List.mem_singleton.1 hmem)
          · cases hn
            simp at hmem
      exact ⟨"U_color", hcolor ▸ rfl⟩
  · obtain ⟨-, hiff, -⟩ := ofPass_exact PassGraph.looped a PassGraph.looped_built
      PassGraph.looped_slots
    obtain ⟨hacyclic, -⟩ := hiff.1 hbody
    have hfeeds : PassGraph.looped.graph.Feeds 1 1 := ⟨_, rfl, ⟨1, 0⟩, by decide, rfl⟩
    have hcolor : PassGraph.looped.output .color = .output ⟨1, 0⟩ := rfl
    exact hacyclic 1 (PassGraph.live_of_output hcolor) (.single hfeeds)

end MaterialGraph.Body
