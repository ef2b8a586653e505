import MaterialGraph.Proofs.Body.Progress
import MaterialGraph.Proofs.PassGraph.Alike

/-!
Emission of pass graphs that are alike. Nodes that correspond are emitted at the same
time, so their outputs have the same temporaries. Main statement: alike graphs have the
same body.
-/

namespace MaterialGraph.Body

open MaterialGraph.Graph (Matched)

variable {I : Nat → Nat → Prop} {g g' : Graph} {access : Leaf → Outcome String}
  {e e' : Emission} {n n' : Node} {i i' k : Nat} {b b' : Binding} {available available' : List Nat}
  {inputs inputs' : List (Binding × Pin)} {x x' : Outcome Emission}

/-- Emissions that have come equally far, up to corresponding nodes. -/
structure Emission.Alike (I : Nat → Nat → Prop) (e e' : Emission) : Prop where
  next : e.next = e'.next
  firsts : List.Forall₂ (fun a a' => I a.1 a'.1 ∧ a.2 = a'.2) e.firsts e'.firsts
  statements : e.statements = e'.statements

/-- Inputs that are bound alike, at the same pins. -/
def InputsAlike (I : Nat → Nat → Prop) : List (Binding × Pin) → List (Binding × Pin) → Prop :=
  List.Forall₂ fun c c' => c.1.Alike I c'.1 ∧ c.2 = c'.2

/-- Whether a second activity comes equally far wherever a first one comes to an end.
Failures are left out, since they may name nodes. -/
def Follows (I : Nat → Nat → Prop) (x x' : Outcome Emission) : Prop :=
  ∀ e, x = .ok e → ∃ e', x' = .ok e' ∧ e.Alike I e'

namespace Follows

theorem ok (h : e.Alike I e') : Follows I (.ok e) (.ok e') := by
  intro _ heq
  cases heq
  exact ⟨e', rfl, h⟩

theorem error {f : Failure} : Follows I (.error f) x' := by
  intro _ heq
  cases heq

theorem bind {k k' : Emission → Outcome Emission} (h : Follows I x x')
    (hk : ∀ e e', e.Alike I e' → Follows I (k e) (k' e')) :
    Follows I (x.bind k) (x'.bind k') := by
  intro e₂ he₂
  obtain ⟨e₁, he₁, hrest⟩ := Except.bind_eq_ok_iff.1 he₂
  obtain ⟨e₁', he₁', halike⟩ := h e₁ he₁
  obtain ⟨e₂', he₂', halike'⟩ := hk e₁ e₁' halike e₂ hrest
  exact ⟨e₂', Except.bind_eq_ok_iff.2 ⟨e₁', he₁', he₂'⟩, halike'⟩

end Follows

namespace Emission.Alike

theorem emit (h : e.Alike I e') (c : Statement) :
    Emission.Alike I { e with statements := e.statements ++ [c] }
      { e' with statements := e'.statements ++ [c] } where
  next := h.next
  firsts := h.firsts
  statements := congrArg (· ++ [c]) h.statements

theorem declare (h : e.Alike I e') (hi : I i i') (hn : n.Alike I n') :
    Emission.Alike I (e.declare i n) (e'.declare i' n') where
  next := by rw [Emission.declare, Emission.declare, outputTemps, outputTemps, h.next, hn.type]
  firsts := List.rel_append h.firsts (.cons ⟨hi, h.next⟩ .nil)
  statements := by
    rw [Emission.declare, Emission.declare, outputTemps, outputTemps, h.next, hn.type,
      h.statements]

variable (hg : g.Alike I g') (h : e.Alike I e')
include hg h

theorem lookup_eq (hi : I i i') : e.firsts.lookup i = e'.firsts.lookup i' := by
  have hfirsts := h.firsts
  generalize e.firsts = firsts, e'.firsts = firsts' at hfirsts ⊢
  induction hfirsts with
  | nil => rfl
  | @cons a a' _ _ ha _ ih =>
    obtain ⟨j, first⟩ := a
    obtain ⟨j', first'⟩ := a'
    obtain ⟨hj, rfl⟩ := ha
    have hsame : (i == j) = (i' == j') := by
      rw [Bool.eq_iff_iff, beq_iff_eq, beq_iff_eq]
      exact hg.unique i i' j j' hi hj
    rw [List.lookup_cons, List.lookup_cons, ih, hsame]

/-- Outputs of nodes that correspond have the same temporary. -/
theorem temp?_eq (hi : I i i') (k : Nat) : e.temp? g ⟨i, k⟩ = e'.temp? g' ⟨i', k⟩ := by
  obtain ⟨n, n', hn, hn', halike⟩ := hg.nodes i i' hi
  unfold Emission.temp?
  simp only [h.lookup_eq hg hi, hn, hn']
  cases e'.firsts.lookup i' with
  | none => rfl
  | some first => simp only [halike.type]

theorem operand?_eq_ok (hb : b.Alike I b') {o : Option Operand}
    (ho : operand? g access e b = .ok o) : operand? g' access e' b' = .ok o := by
  cases hb with
  | unbound => exact ho
  | leaf l => exact ho
  | output hi k =>
    simp only [operand?] at ho ⊢
    rw [← h.temp?_eq hg hi k]
    split at ho
    · exact ho
    · cases ho

theorem inputArguments_eq_ok (hinputs : InputsAlike I inputs inputs')
    {args result : List (Int × Argument)}
    (hok : inputArguments g access e inputs args = .ok result) :
    inputArguments g' access e' inputs' args = .ok result := by
  induction hinputs generalizing args with
  | nil => exact hok
  | @cons c c' _ _ hc _ ih =>
    obtain ⟨b, pin⟩ := c
    obtain ⟨b', pin'⟩ := c'
    obtain ⟨hb, rfl⟩ := hc
    rw [inputArguments] at hok ⊢
    obtain ⟨o, ho, hrest⟩ := Except.bind_eq_ok_iff.1 hok
    refine Except.bind_eq_ok_iff.2 ⟨o, h.operand?_eq_ok hg hb ho, ?_⟩
    cases o with
    | some value => exact ih hrest
    | none => exact ih hrest

end Emission.Alike

theorem inputsAlike_of_node (hn : n.Alike I n') :
    InputsAlike I (n.inputs.zip n.type.inputs) (n'.inputs.zip n'.type.inputs) := by
  have hinputs := hn.inputs
  rw [hn.type]
  generalize n.inputs = bindings, n'.inputs = bindings', n'.type.inputs = pins at hinputs ⊢
  induction hinputs generalizing pins with
  | nil => exact .nil
  | cons hb _ ih =>
    cases pins with
    | nil => exact .nil
    | cons pin rest => exact .cons ⟨hb, rfl⟩ (ih rest)

theorem follows_emitCall (hg : g.Alike I g') (h : e.Alike I e') (hi : I i i') (hn : n.Alike I n') :
    Follows I (emitCall g access i n e) (emitCall g' access i' n' e') := by
  intro e₂ he₂
  rw [emitCall_eq_bind] at he₂
  obtain ⟨arguments, harguments, heq⟩ := Except.bind_eq_ok_iff.1 he₂
  have hdeclare := h.declare hi hn
  have harguments' := hdeclare.inputArguments_eq_ok hg (inputsAlike_of_node hn) harguments
  have htemps : outputTemps n e.next = outputTemps n' e'.next := by
    rw [outputTemps, outputTemps, h.next, hn.type]
  cases heq
  rw [htemps] at harguments'
  refine ⟨_, ?_, hdeclare.emit _⟩
  rw [emitCall_eq_bind, harguments', htemps, NodeType.function, NodeType.function, hn.type]
  rfl

section Nodes

variable (I : Nat → Nat → Prop) (g g' : Graph) (access : Leaf → Outcome String)

/-- Emitting a node that corresponds follows emitting a node. -/
def NodeFollows (available : List Nat) (i : Nat) (e : Emission) : Prop :=
  ∀ available' i' e', Matched I available available' → I i i' → e.Alike I e' →
    Follows I (emitNode g access available i e) (emitNode g' access available' i' e')

/-- So does emitting the producers of alike inputs. -/
def ProducersFollow (available : List Nat) (n : Node) (inputs : List (Binding × Pin))
    (e : Emission) : Prop :=
  ∀ available' n' inputs' e', Matched I available available' → InputsAlike I inputs inputs' →
    e.Alike I e' → Follows I (emitProducers g access available n inputs e)
      (emitProducers g' access available' n' inputs' e')

end Nodes

theorem nodeFollows_emitted (hg : g.Alike I g') (hn : g.node? i = some n)
    (hemitted : (e.firsts.lookup i).isSome) : NodeFollows I g g' access available i e := by
  intro available' i' e' _ hi he
  obtain ⟨_, n', -, hn', -⟩ := hg.nodes i i' hi
  have hemitted' : (e'.firsts.lookup i').isSome := he.lookup_eq hg hi ▸ hemitted
  rw [emitNode, emitNode, hn, hn']
  simp only [hemitted, hemitted', if_true]
  exact .ok he

theorem nodeFollows_of_producers (hg : g.Alike I g') (hn : g.node? i = some n)
    (hnew : ¬(e.firsts.lookup i).isSome) (havailable : i ∈ available)
    (hproducers : ProducersFollow I g g' access (available.erase i) n (n.inputs.zip n.type.inputs)
      e) : NodeFollows I g g' access available i e := by
  intro available' i' e' hmatched hi he
  obtain ⟨m, n', hm, hn', halike⟩ := hg.nodes i i' hi
  cases hn.symm.trans hm
  have hnew' : ¬(e'.firsts.lookup i').isSome := he.lookup_eq hg hi ▸ hnew
  have havailable' : i' ∈ available' := (hmatched.mem_iff i i' hi).1 havailable
  rw [emitNode, emitNode, hn, hn']
  simp only [hnew, hnew', havailable, havailable', dite_true]
  refine (hproducers _ _ _ e' (hg.matched_erase hmatched hi) (inputsAlike_of_node halike) he).bind ?_
  exact fun fed fed' hfed => follows_emitCall hg hfed hi halike

theorem producersFollow_leaf {l : Leaf} {pin : Pin}
    (hrest : ProducersFollow I g g' access available n inputs e) :
    ProducersFollow I g g' access available n ((.leaf l, pin) :: inputs) e := by
  intro available' n' inputs' e' hmatched hinputs he
  cases hinputs with
  | @cons _ c' _ rest' hc hrest' =>
    obtain ⟨b', pin'⟩ := c'
    obtain ⟨hb, -⟩ := hc
    cases hb
    rw [emitProducers, emitProducers]
    exact hrest available' n' rest' e' hmatched hrest' he

theorem producersFollow_output {ref : OutputRef} {pin : Pin}
    (hnode : NodeFollows I g g' access available ref.node e)
    (hrest : ∀ e, ProducersFollow I g g' access available n inputs e) :
    ProducersFollow I g g' access available n ((.output ref, pin) :: inputs) e := by
  intro available' n' inputs' e' hmatched hinputs he
  cases hinputs with
  | @cons _ c' _ rest' hc hrest' =>
    obtain ⟨b', pin'⟩ := c'
    obtain ⟨hb, -⟩ := hc
    cases hb with
    | output hi k =>
      rw [emitProducers, emitProducers]
      refine (hnode available' _ e' hmatched hi he).bind fun fed fed' hfed => ?_
      exact hrest fed available' n' rest' fed' hmatched hrest' hfed

/-- By induction along the recursion of emission. -/
theorem nodeFollows (hg : g.Alike I g') (access : Leaf → Outcome String) (available : List Nat)
    (i : Nat) (e : Emission) : NodeFollows I g g' access available i e := by
  refine (emitNode.mutual_induct g (NodeFollows I g g' access) (ProducersFollow I g g' access)
    ?absent ?emitted ?fresh ?cycle ?nil ?leaf ?unbound ?output).1 available i e
  case absent =>
    intro available i e hn available' i' e' _ hi _
    obtain ⟨n, -, hn', -⟩ := hg.nodes i i' hi
    cases hn.symm.trans hn'
  case emitted => exact fun available i e n hn hemitted => nodeFollows_emitted hg hn hemitted
  case fresh =>
    exact fun available i e n hn hnew havailable _ hproducers =>
      nodeFollows_of_producers hg hn hnew havailable hproducers
  case cycle =>
    intro available i e n hn hnew hnot available' i' e' _ _ _
    rw [emitNode, hn]
    simp only [hnew, hnot, dite_false]
    exact .error
  case nil =>
    intro available n e available' n' inputs' e' _ hinputs he
    cases hinputs
    rw [emitProducers, emitProducers]
    exact .ok he
  case leaf => exact fun available n e l pin rest => producersFollow_leaf
  case unbound =>
    intro available n e pin rest available' n' inputs' e' _ _ _
    rw [emitProducers]
    exact .error
  case output => exact fun available n e ref pin rest => producersFollow_output

section Pass

variable {p p' : PassGraph} (h : p.Alike I p')
include h

theorem follows_emitOutput (o : Output) (field : Field) (he : e.Alike I e') :
    Follows I (emitOutput p access o field e) (emitOutput p' access o field e') := by
  have houtput := h.outputs o
  unfold emitOutput
  generalize p.output o = b, p'.output o = b' at houtput ⊢
  cases houtput with
  | unbound => exact .ok he
  | leaf l =>
    simp only
    cases access l with
    | error f => exact .error
    | ok s => exact .ok (he.emit _)
  | output hi k =>
    refine Follows.bind (nodeFollows h.graph access _ _ e _ _ e' h.graph.matched_ids hi he) ?_
    intro fed fed' hfed
    simp only [← hfed.temp?_eq h.graph hi k]
    cases fed.temp? p.graph ⟨_, k⟩ with
    | some m => exact .ok (hfed.emit _)
    | none => exact .error

/-- A body of a pass is one of an alike pass. -/
theorem ofPass_of_alike {body : Body} (hbody : ofPass p access = .ok body) :
    ofPass p' access = .ok body := by
  have hcolor : p.color = .unbound ↔ p'.color = .unbound := h.unbound_iff .color
  have halpha : p.alpha = .unbound ↔ p'.alpha = .unbound := h.unbound_iff .alpha
  have hstart : Emission.Alike I {} {} := ⟨rfl, .nil, rfl⟩
  rw [ofPass_eq_map] at hbody ⊢
  obtain ⟨e, he, heq⟩ := Except.bind_eq_ok_iff.1 hbody
  have hfirst : Follows I
      (if p.color = .unbound then .ok ⟨0, [], [.assign .color white]⟩
        else emitOutput p access .color (if p.alpha = .unbound then .color else .colorXyz) {})
      (if p'.color = .unbound then .ok ⟨0, [], [.assign .color white]⟩
        else emitOutput p' access .color (if p'.alpha = .unbound then .color else .colorXyz) {}) := by
    simp only [hcolor, halpha]
    split
    · exact .ok (hstart.emit _)
    · exact follows_emitOutput h .color _ hstart
  obtain ⟨e', he', halike⟩ := (hfirst.bind fun e e' he =>
    (follows_emitOutput h .alpha .colorW he).bind fun e e' he =>
      follows_emitOutput h .depth .depth he) e he
  rw [he', ← Except.ok.inj heq, halike.statements]
  rfl

end Pass

end MaterialGraph.Body
