import MaterialGraph.Proofs.Body.Emission
import MaterialGraph.Proofs.PassGraph.Sound

/-!
How the emission of a pass can fail. In a pass that is linked a node that is reached
is emitted after its producers, whatever registers its pins share, so nothing but a
cycle, an unbound input or a leaf without a text stops the walk. Main statements: a
body comes of a pass only if the pass is sound and all leaves that it depends on have
texts, which are then the texts that the body reads, and otherwise the failure is
that of what stopped the walk; in a pass that is sound, this is a leaf.
-/

namespace MaterialGraph

open Relation (TransGen)

/-- A node that only grounded nodes feed, and so on down, lies on no cycle. -/
theorem Graph.not_transGen_of_acc {g : Graph} {id : Nat} (h : Acc g.Feeds id) :
    ¬TransGen g.Feeds id id := by
  induction h with
  | intro id _ ih =>
    intro hcycle
    obtain ⟨a, hpath, ha⟩ := TransGen.tail'_iff.1 hcycle
    exact ih a ha (TransGen.head' ha hpath)

/-- The operands that a statement reads. -/
def Statement.operands : Statement → List Operand
  | .declare .. => []
  | .call c => c.arguments.filterMap fun a => a.2.input?
  | .assign _ value => [value]

namespace Body

variable {p : PassGraph} {g : Graph} {access : Leaf → Outcome String} {e e' : Emission}
  {id : Nat} {n : Node} {available : List Nat} {inputs : List (Binding × Pin)}

/-- A text that the body of a pass may read: white or that of a leaf of the pass. -/
def Readable (p : PassGraph) (access : Leaf → Outcome String) (t : String) : Prop :=
  .text t = white ∨ ∃ l, p.LiveLeaf l ∧ access l = .ok t

/-- The failures of a walk: those of a cycle, of an unbound input and of a leaf, all of
them among what the outputs of the pass depend on. -/
inductive Stops (p : PassGraph) (access : Leaf → Outcome String) : Failure → Prop
  | cycle {id : Nat} {n : Node} (hlive : p.Live id) (hn : p.graph.node? id = some n)
      (hcycle : TransGen p.graph.Feeds id id) :
      Stops p access (.compile (.recursiveNode n.name))
  | unbound {id k : Nat} {n : Node} {pin : Pin} (hlive : p.Live id)
      (hn : p.graph.node? id = some n) (hk : n.inputs[k]? = some .unbound)
      (hpin : n.type.inputs[k]? = some pin) :
      Stops p access (.compile (.unboundInput n.name n.type.name pin.name))
  | leaf {l : Leaf} {f : Failure} (hl : p.LiveLeaf l) (haccess : access l = .error f) :
      Stops p access f

/-- The inputs of the nodes emitted so far are ready, none of these nodes depends on
itself, and the texts read are those that the pass may read. -/
structure Emission.Settled (p : PassGraph) (access : Leaf → Outcome String) (e : Emission) :
    Prop where
  ready : ∀ id n, (e.firsts.lookup id).isSome → p.graph.node? id = some n →
    ∀ b ∈ n.inputs, e.Ready p.graph access b
  grounded : ∀ id, (e.firsts.lookup id).isSome → Acc p.graph.Feeds id
  texts : ∀ c ∈ e.statements, ∀ t, .text t ∈ c.operands → Readable p access t

/-- What emitting gives: a settled emission with a property, or what stops the walk. -/
def Gives (p : PassGraph) (access : Leaf → Outcome String) (e : Emission)
    (P : Emission → Prop) : Outcome Emission → Prop
  | .ok e' => e'.Settled p access ∧ e.firsts <+: e'.firsts ∧ P e'
  | .error f => Stops p access f

namespace Gives

variable {P Q : Emission → Prop} {x : Outcome Emission}

theorem imp (h : Gives p access e P x)
    (hPQ : ∀ e', e.firsts <+: e'.firsts → P e' → Q e') : Gives p access e Q x := by
  cases x with
  | error f => exact h
  | ok e' =>
    obtain ⟨hsettled, hfirsts, hP⟩ := h
    exact ⟨hsettled, hfirsts, hPQ e' hfirsts hP⟩

theorem bind {k : Emission → Outcome Emission} (h : Gives p access e P x)
    (hk : ∀ e', e'.Settled p access → e.firsts <+: e'.firsts → P e' →
      Gives p access e' Q (k e')) : Gives p access e Q (x.bind k) := by
  cases x with
  | error f => exact h
  | ok e' =>
    obtain ⟨hsettled, hfirsts, hP⟩ := h
    have hnext := hk e' hsettled hfirsts hP
    change Gives p access e Q (k e')
    cases hke : k e' with
    | error f =>
      rw [hke] at hnext
      exact hnext
    | ok e'' =>
      rw [hke] at hnext
      obtain ⟨hsettled', hfirsts', hQ⟩ := hnext
      exact ⟨hsettled', hfirsts.trans hfirsts', hQ⟩

end Gives

/-- An input of which the producer is emitted has an operand or the failure of its leaf. -/
theorem operand?_cases (access : Leaf → Outcome String) {b : Binding} (hb : b ≠ .unbound)
    (href : ∀ ref, b = .output ref → (e.temp? g ref).isSome) :
    (∃ o, operand? g access e b = .ok (some o) ∧ e.Ready g access b ∧
      ∀ t, o = .text t → ∃ l, b = .leaf l ∧ access l = .ok t) ∨
    ∃ l f, b = .leaf l ∧ access l = .error f ∧ operand? g access e b = .error f := by
  cases b with
  | unbound => exact absurd rfl hb
  | leaf l =>
    cases hl : access l with
    | ok t =>
      refine .inl ⟨.text t, by rw [operand?, hl]; rfl, ⟨t, hl⟩, fun t' ht' => ?_⟩
      cases ht'
      exact ⟨l, rfl, hl⟩
    | error f => exact .inr ⟨l, f, rfl, hl, by rw [operand?, hl]; rfl⟩
  | output ref =>
    obtain ⟨m, hm⟩ := Option.isSome_iff_exists.1 (href ref rfl)
    refine .inl ⟨.temp m, by rw [operand?, hm], href ref rfl, fun t ht => ?_⟩
    cases ht

/-- Passing inputs adds arguments for them to those there are. -/
theorem inputArguments_cases (access : Leaf → Outcome String) (args : List (Int × Argument))
    (h : ∀ b ∈ inputs, b.1 ≠ .unbound ∧ ∀ ref, b.1 = .output ref → (e.temp? g ref).isSome) :
    (∃ result, inputArguments g access e inputs args = .ok result ∧
      (∀ b ∈ inputs, e.Ready g access b.1) ∧
      ∀ r t, (r, .input (.text t)) ∈ result →
        (r, .input (.text t)) ∈ args ∨ ∃ b ∈ inputs, ∃ l, b.1 = .leaf l ∧ access l = .ok t) ∨
    ∃ b ∈ inputs, ∃ l f, b.1 = .leaf l ∧ access l = .error f ∧
      inputArguments g access e inputs args = .error f := by
  induction inputs generalizing args with
  | nil =>
    exact .inl ⟨args, rfl, fun b hb => absurd hb List.not_mem_nil, fun r t hmem => .inl hmem⟩
  | cons b rest ih =>
    obtain ⟨hb, href⟩ := h b List.mem_cons_self
    rcases operand?_cases access hb href with
      ⟨o, ho, hready, htext⟩ | ⟨l, f, hl, haccess, ho⟩
    · have hstep : inputArguments g access e (b :: rest) args =
          inputArguments g access e rest (place false b.2.register (.input o) args) := by
        simp only [inputArguments, ho, Bind.bind, Except.bind]
      rw [hstep]
      rcases ih (place false b.2.register (.input o) args)
          fun c hc => h c (List.mem_cons_of_mem _ hc) with
        ⟨result, hresult, hreadies, htexts⟩ | ⟨c, hc, l, f, hl, haccess, hresult⟩
      · refine .inl ⟨result, hresult, fun c hc => ?_, fun r t hmem => ?_⟩
        · rcases List.mem_cons.1 hc with rfl | hc
          · exact hready
          · exact hreadies c hc
        · rcases htexts r t hmem with hplaced | ⟨c, hc, l, hl, haccess⟩
          · rcases eq_or_mem_of_mem_place hplaced with heq | hmem
            · cases heq
              obtain ⟨l, hl, haccess⟩ := htext t rfl
              exact .inr ⟨b, List.mem_cons_self, l, hl, haccess⟩
            · exact .inl hmem
          · exact .inr ⟨c, List.mem_cons_of_mem _ hc, l, hl, haccess⟩
      · exact .inr ⟨c, List.mem_cons_of_mem _ hc, l, f, hl, haccess, hresult⟩
    · refine .inr ⟨b, List.mem_cons_self, l, f, hl, haccess, ?_⟩
      simp only [inputArguments, ho, Bind.bind, Except.bind]

/-- The outputs of a call take values and pass no text. -/
theorem not_input_mem_outputArguments {outputs : List (Pin × Nat)} {r : Int} {value : Operand} :
    (r, .input value) ∉ outputArguments outputs := by
  have hplaced : ∀ items args : List (Int × Argument), (r, .input value) ∉ items →
      (r, .input value) ∉ args → (r, .input value) ∉ placeAll true items args := by
    intro items
    induction items with
    | nil => exact fun args _ hargs => hargs
    | cons i rest ih =>
      intro args hitems hargs
      obtain ⟨hi, hrest⟩ := not_or.1 (mt List.mem_cons.2 hitems)
      refine ih _ hrest fun hmem => ?_
      rcases eq_or_mem_of_mem_place hmem with heq | hmem
      · exact hi heq
      · exact hargs hmem
  rw [outputArguments_eq]
  refine hplaced _ _ (fun hmem => ?_) List.not_mem_nil
  obtain ⟨o, -, heq⟩ := List.mem_map.1 hmem
  cases heq

theorem emitCall_eq_bind (g : Graph) (access : Leaf → Outcome String) (id : Nat) (n : Node)
    (e : Emission) :
    emitCall g access id n e =
      (inputArguments g access (e.declare id n) (n.inputs.zip n.type.inputs)
        (outputArguments (outputTemps n e.next))).map fun arguments =>
          { e.declare id n with
            statements := (e.declare id n).statements ++ [.call ⟨resultTemp? (outputTemps n e.next),
              n.type.function, n.type.aliasName.isNone, arguments⟩] } := by
  unfold emitCall Emission.declare
  simp only [Bind.bind, Except.bind]
  cases inputArguments g access _ (n.inputs.zip n.type.inputs)
    (outputArguments (outputTemps n e.next)) <;> rfl

/-- The body of a pass is what its outputs emit one after the other. -/
theorem ofPass_eq_map (p : PassGraph) (access : Leaf → Outcome String) :
    ofPass p access = (((if p.color = .unbound then .ok ⟨0, [], [.assign .color white]⟩
        else emitOutput p access .color (if p.alpha = .unbound then .color else .colorXyz) {}).bind
      fun e => (emitOutput p access .alpha .colorW e).bind
        (emitOutput p access .depth .depth)).map Emission.statements) := by
  have hrest : ∀ x : Outcome Emission, (x.bind fun e => (emitOutput p access .alpha .colorW e).bind
      fun e => (emitOutput p access .depth .depth e).bind fun e => .ok e.statements) =
      (x.bind fun e => (emitOutput p access .alpha .colorW e).bind
        (emitOutput p access .depth .depth)).map Emission.statements := by
    intro x
    cases x with
    | error f => rfl
    | ok e =>
      simp only [Except.bind]
      cases emitOutput p access .alpha .colorW e with
      | error f => rfl
      | ok e => cases emitOutput p access .depth .depth e <;> rfl
  rw [← hrest, ofPass]
  by_cases hcolor : p.color = .unbound
  · simp only [hcolor, if_true]
    rfl
  · simp only [hcolor, if_false]
    rfl

/-- A body is what the three outputs have emitted one after the other. -/
theorem exists_emissions {body : Body} (h : ofPass p access = .ok body) : ∃ e₁ e₂ e₃,
    (if p.color = .unbound then .ok ⟨0, [], [.assign .color white]⟩
      else emitOutput p access .color (if p.alpha = .unbound then .color else .colorXyz) {} :
        Outcome Emission) = .ok e₁ ∧
      emitOutput p access .alpha .colorW e₁ = .ok e₂ ∧
      emitOutput p access .depth .depth e₂ = .ok e₃ ∧ e₃.statements = body := by
  rw [ofPass_eq_map] at h
  obtain ⟨e₃, h, heq⟩ := Except.bind_eq_ok_iff.1 h
  obtain ⟨e₁, hcolor, h⟩ := Except.bind_eq_ok_iff.1 h
  obtain ⟨e₂, halpha, hdepth⟩ := Except.bind_eq_ok_iff.1 h
  exact ⟨e₁, e₂, e₃, hcolor, halpha, hdepth, Except.ok.inj heq⟩

/-- A leaf that gives the depth is assigned by its text. -/
theorem assign_depth_mem {body : Body} {l : Leaf} {text : String} (h : ofPass p access = .ok body)
    (hdepth : p.depth = .leaf l) (htext : access l = .ok text) :
    .assign .depth (.text text) ∈ body := by
  obtain ⟨e₁, e₂, e₃, -, -, hlast, rfl⟩ := exists_emissions h
  have houtput : p.output .depth = .leaf l := hdepth
  rw [emitOutput, houtput] at hlast
  simp only [htext] at hlast
  cases hlast
  exact List.mem_append_right _ List.mem_cons_self

/-- Every input of a node has its pin. -/
theorem exists_mem_zip (hg : g.WellWired) (hn : g.node? id = some n) {b : Binding}
    (hb : b ∈ n.inputs) : ∃ c ∈ n.inputs.zip n.type.inputs, c.1 = b := by
  rw [← List.map_fst_zip (Nat.le_of_eq (hg.inputs_length hn))] at hb
  exact List.mem_map.1 hb

theorem zip_inputs (h : p.Sound) (hlive : p.Live id) (hn : p.graph.node? id = some n) :
    (∀ b ∈ n.inputs, ∃ c ∈ n.inputs.zip n.type.inputs, c.1 = b) ∧
      ∀ c ∈ n.inputs.zip n.type.inputs, c.1 ∈ n.inputs ∧ c.1 ≠ .unbound := by
  refine ⟨fun b hb => exists_mem_zip h.wellWired hn hb, fun c hc => ?_⟩
  have hmem := (List.of_mem_zip hc).1
  exact ⟨hmem, fun heq => h.bound id n hlive hn (heq ▸ hmem)⟩

/-- Declaring the outputs of a node adds this node to those that are emitted. -/
theorem Emission.emitted_of_declare {other : Nat}
    (h : ((e.declare id n).firsts.lookup other).isSome) :
    (e.firsts.lookup other).isSome ∨ other = id := by
  by_contra hnot
  obtain ⟨hold, hne⟩ := not_or.1 hnot
  have hnone : (List.lookup other [(id, e.next)]).isSome = false := by
    rw [List.lookup_cons, beq_false_of_ne hne]
    rfl
  rw [Emission.declare, List.lookup_append, Option.isSome_or, hnone, Bool.or_false] at h
  exact hold h

/-- The inputs of a node whose producers are emitted. -/
def Fed (g : Graph) (e : Emission) (inputs : List (Binding × Pin)) : Prop :=
  ∀ b ∈ inputs, b.1 ≠ .unbound ∧ ∀ ref, b.1 = .output ref → (e.temp? g ref).isSome

theorem Fed.mono (hfirsts : e.firsts <+: e'.firsts) (hfed : Fed g e inputs) : Fed g e' inputs := by
  intro b hb
  refine ⟨(hfed b hb).1, fun ref href => ?_⟩
  obtain ⟨m, hm⟩ := Option.isSome_iff_exists.1 ((hfed b hb).2 ref href)
  exact Option.isSome_iff_exists.2 ⟨m, Emission.temp?_mono hfirsts hm⟩

/-- The emission after a call whose inputs are ready. -/
theorem Emission.Settled.call (h : p.Linked) (he : e.Settled p access)
    (hn : p.graph.node? id = some n) {arguments : List (Int × Argument)}
    (hready : ∀ b ∈ n.inputs.zip n.type.inputs, (e.declare id n).Ready p.graph access b.1)
    (hfed : Fed p.graph e (n.inputs.zip n.type.inputs))
    (htexts : ∀ r t, (r, .input (.text t)) ∈ arguments → Readable p access t)
    (result : Option Nat) (function : String) (own : Bool) :
    Emission.Settled p access { e.declare id n with
      statements := (e.declare id n).statements ++
        [.call ⟨result, function, own, arguments⟩] } where
  ready id' n' hid' hn' b hb := by
    rcases Emission.emitted_of_declare (n := n) hid' with hold | rfl
    · exact (he.ready id' n' hold hn' b hb).mono (List.prefix_append ..)
    · cases hn.symm.trans hn'
      obtain ⟨c, hc, rfl⟩ := exists_mem_zip h.wellWired hn hb
      exact hready c hc
  grounded id' hid' := by
    rcases Emission.emitted_of_declare (n := n) hid' with hold | rfl
    · exact he.grounded id' hold
    · refine .intro id' fun a ha => he.grounded a ?_
      obtain ⟨n', hn', ref, href, rfl⟩ := ha
      cases hn.symm.trans hn'
      obtain ⟨c, hc, heq⟩ := exists_mem_zip h.wellWired hn href
      exact Emission.lookup_isSome_of_temp? ((hfed c hc).2 ref heq)
  texts c hc t ht := by
    rcases List.mem_append.1 hc with hc | hc
    · rcases List.mem_append.1 hc with hc | hc
      · exact he.texts c hc t ht
      · obtain ⟨o, -, rfl⟩ := List.mem_map.1 hc
        cases ht
    · rw [List.mem_singleton.1 hc] at ht
      obtain ⟨⟨r, a⟩, hmem, ha⟩ := List.mem_filterMap.1 ht
      cases a with
      | output m => cases ha
      | input value =>
        cases ha
        exact htexts r t hmem

section Linked

variable (h : p.Linked)
include h

/-- Calling a node whose producers are emitted. -/
theorem call_gives (he : e.Settled p access) (hlive : p.Live id) (hn : p.graph.node? id = some n)
    (hfed : Fed p.graph e (n.inputs.zip n.type.inputs)) :
    Gives p access e (fun e' => (e'.firsts.lookup id).isSome) (emitCall p.graph access id n e) := by
  have hfirsts : e.firsts <+: (e.declare id n).firsts := List.prefix_append ..
  have hleaf : ∀ b ∈ n.inputs.zip n.type.inputs, ∀ l, b.1 = .leaf l → p.LiveLeaf l :=
    fun b hb l hl => .inr ⟨id, n, hlive, hn, hl ▸ (List.of_mem_zip hb).1⟩
  rw [emitCall_eq_bind]
  rcases inputArguments_cases access (outputArguments (outputTemps n e.next)) (hfed.mono hfirsts)
    with ⟨arguments, harguments, hready, htexts⟩ | ⟨b, hb, l, f, hl, haccess, hfails⟩
  · rw [harguments]
    have hreadable : ∀ r t, (r, .input (.text t)) ∈ arguments → Readable p access t := by
      intro r t hmem
      rcases htexts r t hmem with houtput | ⟨b, hb, l, hl, haccess⟩
      · exact absurd houtput not_input_mem_outputArguments
      · exact .inr ⟨l, hleaf b hb l hl, haccess⟩
    refine ⟨he.call h hn hready hfed hreadable _ _ _, hfirsts, ?_⟩
    change (List.lookup id (e.firsts ++ [(id, e.next)])).isSome
    rw [List.lookup_append, Option.isSome_or, List.lookup_cons, BEq.rfl]
    exact Bool.or_true _
  · rw [hfails]
    exact .leaf (hleaf b hb l hl) haccess

/-- What the walk gives for a node that it reaches. -/
def NodeGives (p : PassGraph) (access : Leaf → Outcome String) (available : List Nat) (id : Nat)
    (e : Emission) : Prop :=
  ∀ n, p.graph.node? id = some n → p.Live id → OnWay p.graph.Feeds p.graph.size available id →
    e.Settled p access → Gives p access e (fun e' => (e'.firsts.lookup id).isSome)
      (emitNode p.graph access available id e)

/-- What the walk gives for the producers of some inputs of a node. -/
def ProducersGive (p : PassGraph) (access : Leaf → Outcome String) (available : List Nat)
    (n : Node) (inputs : List (Binding × Pin)) (e : Emission) : Prop :=
  ∀ id, p.graph.node? id = some n → p.Live id →
    (∀ a, p.graph.Feeds a id → OnWay p.graph.Feeds p.graph.size available a) →
    (∀ b ∈ inputs, b ∈ n.inputs.zip n.type.inputs) → e.Settled p access →
    Gives p access e (fun e' => Fed p.graph e' inputs)
      (emitProducers p.graph access available n inputs e)

omit h in
theorem nodeGives_of_emitted (hn : p.graph.node? id = some n) (hid : (e.firsts.lookup id).isSome) :
    NodeGives p access available id e := by
  intro n' _ _ _ he
  rw [emitNode, hn]
  simp only [hid, if_true]
  exact ⟨he, List.prefix_refl _, hid⟩

theorem nodeGives_of_producers (hn : p.graph.node? id = some n)
    (hnew : ¬(e.firsts.lookup id).isSome) (havailable : id ∈ available)
    (hproducers : ProducersGive p access (available.erase id) n (n.inputs.zip n.type.inputs) e) :
    NodeGives p access available id e := by
  intro n' _ hlive hway he
  rw [emitNode, hn]
  simp only [hnew, havailable, dite_true]
  exact (hproducers id hn hlive (fun a ha => hway.step ha) (fun b hb => hb) he).bind
    fun e' he' _ hfed => call_gives h he' hlive hn hfed

theorem producersGive_output {ref : OutputRef} {pin : Pin}
    (hnode : NodeGives p access available ref.node e)
    (hrest : ∀ e', ProducersGive p access available n inputs e') :
    ProducersGive p access available n ((.output ref, pin) :: inputs) e := by
  intro id hn hlive hway hinputs he
  have hmem : .output ref ∈ n.inputs := (List.of_mem_zip (hinputs _ List.mem_cons_self)).1
  have hfeeds : p.graph.Feeds ref.node id := ⟨n, hn, ref, hmem, rfl⟩
  have houtput := h.wellWired.hasOutput_of_mem hn hmem
  obtain ⟨n', hn', -⟩ := h.wellWired.hasOutput_of_mem hn hmem
  rw [emitProducers]
  refine (hnode n' hn' (hlive.feeder hfeeds) (hway _ hfeeds) he).bind fun e' he' _ hid => ?_
  refine (hrest e' id hn hlive hway (fun b hb => hinputs b (List.mem_cons_of_mem _ hb)) he').imp
    fun e'' hfirsts hfed b hb => ?_
  rcases List.mem_cons.1 hb with rfl | hb
  · refine ⟨by simp, fun ref' href' => ?_⟩
    cases href'
    have hready : e'.Ready p.graph access (.output ref) := Emission.temp?_isSome hid houtput
    exact hready.mono hfirsts
  · exact hfed b hb

omit h in
/-- A leaf has no producer to emit. -/
theorem producersGive_leaf {l : Leaf} {pin : Pin}
    (hrest : ProducersGive p access available n inputs e) :
    ProducersGive p access available n ((.leaf l, pin) :: inputs) e := by
  intro id hn hlive hway hinputs he
  rw [emitProducers]
  refine (hrest id hn hlive hway (fun b hb => hinputs b (List.mem_cons_of_mem _ hb)) he).imp
    fun e' _ hfed b hb => ?_
  rcases List.mem_cons.1 hb with rfl | hb
  · exact ⟨by simp, by simp⟩
  · exact hfed b hb

/-- What the walk gives for every node it reaches, by induction along its recursion. -/
theorem nodeGives (available : List Nat) (id : Nat) (e : Emission) :
    NodeGives p access available id e := by
  refine (emitNode.mutual_induct p.graph (NodeGives p access) (ProducersGive p access)
    ?absent ?emitted ?fresh ?cycle ?nil ?leaf ?unbound ?output).1 available id e
  case absent =>
    intro available id e hn n hn'
    cases hn.symm.trans hn'
  case emitted => exact fun available id e n hn hid => nodeGives_of_emitted hn hid
  case fresh =>
    exact fun available id e n hn hnew havailable _ hproducers =>
      nodeGives_of_producers h hn hnew havailable hproducers
  case cycle =>
    intro available id e n hn hnew hnot n' _ hlive hway _
    rw [emitNode, hn]
    simp only [hnew, hnot, dite_false]
    exact .cycle hlive hn (hway id (Graph.node?_lt hn) hnot)
  case nil =>
    intro available n e id _ _ _ _ he
    rw [emitProducers]
    exact ⟨he, List.prefix_refl _, fun b hb => absurd hb List.not_mem_nil⟩
  case leaf => exact fun available n e l pin rest hrest => producersGive_leaf hrest
  case unbound =>
    intro available n e pin rest id hn hlive _ hinputs _
    obtain ⟨k, hk⟩ := List.getElem?_of_mem (hinputs _ List.mem_cons_self)
    obtain ⟨hinput, hpin⟩ := List.getElem?_zip_eq_some.1 hk
    rw [emitProducers]
    exact .unbound hlive hn hinput hpin
  case output =>
    exact fun available n e ref pin rest hnode hrest => producersGive_output h hnode hrest

/-- An output that was emitted has its leaf's text or its node emitted. -/
def Done (p : PassGraph) (access : Leaf → Outcome String) (o : Output) (e : Emission) : Prop :=
  match p.output o with
  | .unbound => True
  | .leaf l => ∃ t, access l = .ok t
  | .output ref => (e.firsts.lookup ref.node).isSome

omit h in
theorem Done.mono {o : Output} (hfirsts : e.firsts <+: e'.firsts) (ho : Done p access o e) :
    Done p access o e' := by
  unfold Done at ho ⊢
  split
  · trivial
  · next l hl =>
    rw [hl] at ho
    exact ho
  · next ref href =>
    rw [href] at ho
    obtain ⟨first, hfirst⟩ := Option.isSome_iff_exists.1 ho
    exact Option.isSome_iff_exists.2 ⟨first, Emission.lookup_mono hfirsts hfirst⟩

omit h in
theorem Emission.Settled.assign (he : e.Settled p access) {value : Operand} (field : Field)
    (hvalue : ∀ t, value = .text t → Readable p access t) :
    Emission.Settled p access
      { e with statements := e.statements ++ [.assign field value] } where
  ready := he.ready
  grounded := he.grounded
  texts c hc t ht := by
    rcases List.mem_append.1 hc with hc | hc
    · exact he.texts c hc t ht
    · rw [List.mem_singleton.1 hc] at ht
      exact hvalue t (List.mem_singleton.1 ht).symm

theorem emitOutput_gives (o : Output) (field : Field) (he : e.Settled p access) :
    Gives p access e (Done p access o) (emitOutput p access o field e) := by
  unfold emitOutput
  split
  · next ho => exact ⟨he, List.prefix_refl _, by rw [Done, ho]; trivial⟩
  · next l ho =>
    cases hl : access l with
    | error f => exact .leaf (.inl ⟨o, ho⟩) hl
    | ok t =>
      refine ⟨he.assign field fun t' ht' => ?_, List.prefix_refl _, by rw [Done, ho]; exact ⟨t, hl⟩⟩
      cases ht'
      exact .inr ⟨l, .inl ⟨o, ho⟩, hl⟩
  · next ref ho =>
    have houtput := h.outputs o ref ho
    obtain ⟨n, hn, -⟩ := h.outputs o ref ho
    refine (nodeGives h p.graph.ids ref.node e n hn (PassGraph.live_of_output ho)
      (OnWay.start _ _ _) he).bind fun e' he' _ hid => ?_
    obtain ⟨m, hm⟩ := Option.isSome_iff_exists.1 (Emission.temp?_isSome hid houtput)
    simp only [hm]
    exact ⟨he'.assign field nofun, List.prefix_refl _, by rw [Done, ho]; exact hid⟩

omit h in
theorem Emission.Settled.initial (p : PassGraph) (access : Leaf → Outcome String) :
    Emission.Settled p access {} where
  ready id n hid := by cases hid
  grounded id hid := by cases hid
  texts c hc := absurd hc List.not_mem_nil

omit h in
/-- The nodes that feed an emitted node are emitted. -/
theorem Emission.Settled.emitted_of_feeds (he : e.Settled p access) (a b : Nat)
    (hab : p.graph.Feeds a b) (hb : (e.firsts.lookup b).isSome) :
    (e.firsts.lookup a).isSome := by
  obtain ⟨n, hn, ref, href, rfl⟩ := hab
  exact Emission.lookup_isSome_of_temp? (he.ready b n hb hn _ href)

omit h in
/-- With all outputs emitted, the nodes they depend on are. -/
theorem Emission.Settled.emitted_of_done (he : e.Settled p access) (hdone : ∀ o, Done p access o e)
    (hlive : p.Live id) : (e.firsts.lookup id).isSome := by
  refine hlive.mem_of_closed (S := fun x => (e.firsts.lookup x).isSome) (fun o ref ho => ?_)
    he.emitted_of_feeds
  have hemitted := hdone o
  rwa [Done, ho] at hemitted

omit h in
/-- With all outputs emitted, the leaves they depend on have texts. -/
theorem Emission.Settled.texts_of_done (he : e.Settled p access)
    (hdone : ∀ o, Done p access o e) {l : Leaf} (hl : p.LiveLeaf l) : ∃ t, access l = .ok t := by
  rcases hl with ⟨o, ho⟩ | ⟨id, n, hlive, hn, hmem⟩
  · have hleaf := hdone o
    rw [Done, ho] at hleaf
    exact hleaf
  · exact he.ready id n (he.emitted_of_done hdone hlive) hn _ hmem

theorem Emission.Settled.sound_of_done (he : e.Settled p access) (hdone : ∀ o, Done p access o e) :
    p.Sound where
  toLinked := h
  acyclic id hlive := Graph.not_transGen_of_acc (he.grounded id (he.emitted_of_done hdone hlive))
  bound id n hlive hn hmem := he.ready id n (he.emitted_of_done hdone hlive) hn _ hmem

/-- The color comes first, white if it is not given. -/
theorem emitColor_gives (access : Leaf → Outcome String) (field : Field) :
    Gives p access {} (Done p access .color)
      (if p.color = .unbound then .ok ⟨0, [], [.assign .color white]⟩
        else emitOutput p access .color field {}) := by
  have hinitial := Emission.Settled.initial p access
  by_cases hcolor : p.color = .unbound
  · rw [if_pos hcolor]
    refine ⟨hinitial.assign .color fun t ht => .inl ht.symm, List.prefix_refl _, ?_⟩
    have ho : p.output .color = .unbound := hcolor
    rw [Done, ho]
    trivial
  · rw [if_neg hcolor]
    exact emitOutput_gives h .color field hinitial

/-- Either a pass is sound, the leaves that it depends on have texts and a body comes of
it, or the failure is of what stopped the walk. -/
theorem ofPass_outcome (access : Leaf → Outcome String) :
    (∃ body, ofPass p access = .ok body ∧ p.Sound ∧ (∀ l, p.LiveLeaf l → ∃ t, access l = .ok t) ∧
      ∀ c ∈ body, ∀ t, .text t ∈ c.operands → Readable p access t) ∨
    ∃ f, Stops p access f ∧ ofPass p access = .error f := by
  have hcolor := emitColor_gives h access (if p.alpha = .unbound then .color else .colorXyz)
  have hall := hcolor.bind fun e₁ he₁ _ ho₁ =>
    (emitOutput_gives h .alpha .colorW he₁).bind fun e₂ he₂ hfirsts₂ ho₂ =>
    (emitOutput_gives h .depth .depth he₂).imp fun e₃ hfirsts₃ ho₃ =>
      (⟨(ho₁.mono hfirsts₂).mono hfirsts₃, ho₂.mono hfirsts₃, ho₃⟩ :
        Done p access .color e₃ ∧ Done p access .alpha e₃ ∧ Done p access .depth e₃)
  rw [ofPass_eq_map]
  generalize (if p.color = .unbound then .ok ⟨0, [], [.assign .color white]⟩
    else emitOutput p access .color (if p.alpha = .unbound then .color else .colorXyz) {} :
      Outcome Emission).bind _ = outcome at hall
  cases outcome with
  | error f => exact .inr ⟨f, hall, rfl⟩
  | ok e =>
    obtain ⟨he, -, hcolor, halpha, hdepth⟩ := hall
    have hdone : ∀ o, Done p access o e := by
      intro o
      cases o
      · exact hcolor
      · exact halpha
      · exact hdepth
    exact .inl ⟨e.statements, rfl, Emission.Settled.sound_of_done h he hdone, fun l => he.texts_of_done hdone,
      he.texts⟩

end Linked

/-- Nothing but a leaf stops the walk of a pass that is sound. -/
theorem Stops.leaf_of_sound {f : Failure} (h : Stops p access f) (hsound : p.Sound) :
    ∃ l, p.LiveLeaf l ∧ access l = .error f := by
  cases h with
  | cycle hlive _ hcycle => exact absurd hcycle (hsound.acyclic _ hlive)
  | unbound hlive hn hk _ =>
    exact absurd (List.mem_of_getElem? hk) (hsound.bound _ _ hlive hn)
  | leaf hl haccess => exact ⟨_, hl, haccess⟩

/-- A pass that is sound is emitted exactly if the leaves that it depends on have texts,
and otherwise fails as one of them does. -/
theorem ofPass_cases (h : p.Sound) (access : Leaf → Outcome String) :
    (∃ body, ofPass p access = .ok body ∧ (∀ l, p.LiveLeaf l → ∃ t, access l = .ok t) ∧
      ∀ c ∈ body, ∀ t, .text t ∈ c.operands → Readable p access t) ∨
    ∃ l f, p.LiveLeaf l ∧ access l = .error f ∧ ofPass p access = .error f := by
  rcases ofPass_outcome h.toLinked access with ⟨body, hbody, -, hrest⟩ | ⟨f, hstops, hfails⟩
  · exact .inl ⟨body, hbody, hrest⟩
  · obtain ⟨l, hl, haccess⟩ := hstops.leaf_of_sound h
    exact .inr ⟨l, f, hl, haccess, hfails⟩

end Body

end MaterialGraph
