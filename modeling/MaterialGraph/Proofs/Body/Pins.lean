import MaterialGraph.Proofs.Body.Passing

/-!
The call that emitting a node ends with, where pins have any registers. Main statement:
its arguments are those that the pins prescribe at their registers, in the order of the
registers, and it is assigned to the last output with the return register. An input may
have that register as well, and is then passed at it like at any other.
-/

namespace MaterialGraph

/-- Whether a call has an argument at a register: an input has it, or an output that is
not returned does. -/
def NodeType.HasArgument (t : NodeType) (r : Int) : Prop :=
  (∃ q ∈ t.inputs, q.register = r) ∨ r ≠ returnRegister ∧ ∃ q ∈ t.outputs, q.register = r

theorem NodeType.not_leavesFree_iff {t : NodeType} {r : Int} :
    ¬t.LeavesFree r ↔ r ≠ returnRegister ∧ ∃ q ∈ t.outputs, q.register = r := by
  constructor
  · intro h
    simp only [LeavesFree, not_forall, not_or, not_not] at h
    obtain ⟨q, hq, hreturn, rfl⟩ := h
    exact ⟨hreturn, q, hq, rfl⟩
  · rintro ⟨hreturn, q, hq, rfl⟩ h
    exact (h q hq).elim hreturn fun hne => hne rfl

namespace Body

variable {g : Graph} {access : Leaf → Outcome String} {e e' : Emission} {available : List Nat}
  {id k m : Nat} {n : Node} {r : Int} {a : Argument}

/-- The argument of a node at a register: the temporary of the last output with it, and
what the first input with it is bound to where no output is passed there. -/
inductive Prescribes (g : Graph) (access : Leaf → Outcome String) (e : Emission) (id : Nat)
    (n : Node) (r : Int) : Argument → Prop
  | output {k m : Nat} (hr : r ≠ returnRegister) (hk : LastWith n.type.outputs r k)
      (hm : e.temp? g ⟨id, k⟩ = some m) : Prescribes g access e id n r (.output m)
  | input {k : Nat} {b : Binding} {v : Operand} (hfree : n.type.LeavesFree r)
      (hk : FirstWith n.type.inputs r k) (hb : n.inputs[k]? = some b)
      (hv : operand? g access e b = .ok (some v)) : Prescribes g access e id n r (.input v)

/-- Inputs whose producers are emitted are all bound. -/
theorem ne_unbound_of_emitProducers {inputs : List (Binding × Pin)}
    (h : emitProducers g access available n inputs e = .ok e') :
    ∀ b ∈ inputs, b.1 ≠ .unbound := by
  induction inputs generalizing e with
  | nil => exact fun b hb => absurd hb List.not_mem_nil
  | cons head rest ih =>
    obtain ⟨b, pin⟩ := head
    rw [List.forall_mem_cons]
    cases b with
    | unbound =>
      rw [emitProducers] at h
      cases h
    | leaf l =>
      rw [emitProducers] at h
      exact ⟨Binding.noConfusion, ih h⟩
    | output ref =>
      rw [emitProducers] at h
      obtain ⟨fed, -, hrest⟩ := Except.bind_eq_ok_iff.1 h
      exact ⟨Binding.noConfusion, ih hrest⟩

/-- Emitting a node that was not emitted before ends with the call of the node, after its
producers are emitted. -/
theorem emitNode_eq_ok (hn : g.node? id = some n) (hnew : e.firsts.lookup id = none)
    (hnodup : available.Nodup) (h : emitNode g access available id e = .ok e') :
    ∃ fed, fed.firsts.lookup id = none ∧
      (∀ b ∈ n.inputs.zip n.type.inputs, b.1 ≠ .unbound) ∧
      emitCall g access id n fed = .ok e' := by
  -- A pass that the node is an output of has all that feeds it live.
  let p : PassGraph := { pass := .default, graph := g, color := .output ⟨id, 0⟩ }
  have hcolor : p.output .color = .output ⟨id, 0⟩ := rfl
  have hlive : p.Live id := PassGraph.live_of_output hcolor
  rw [emitNode, hn] at h
  simp only [hnew, Option.isSome_none, Bool.false_eq_true, if_false] at h
  split at h
  · obtain ⟨fed, hfed, hcall⟩ := Except.bind_eq_ok_iff.1 h
    have hfeeders : ∀ b ∈ n.inputs.zip n.type.inputs, ∀ ref, b.1 = .output ref →
        p.Live ref.node := by
      intro b hb ref href
      have hmem : .output ref ∈ n.inputs := href ▸ (List.of_mem_zip hb).1
      exact hlive.feeder ⟨n, hn, ref, hmem, rfl⟩
    obtain ⟨-, hgrows, -⟩ := producersKeep (p := p) (P := fun _ => True)
      (fun _ _ _ _ _ _ _ _ _ _ => trivial) _ n _ e fed hfeeders (hnodup.erase id) trivial hfed
    refine ⟨fed, ?_, ne_unbound_of_emitProducers hfed, hcall⟩
    rw [← Option.not_isSome_iff_eq_none]
    intro hid
    rcases hgrows.fresh id hid with hwas | hmem
    · simp [hnew] at hwas
    · exact hnodup.not_mem_erase hmem
  · cases h

section Call

variable {first : Nat} {items : List (Passed Unit)}

/-- A call has an argument at the registers of inputs and of outputs that are passed. -/
theorem mem_registers_nodeCall (hregisters : items.map (·.1) = n.type.inputs.map Pin.register) :
    r ∈ (nodeCall n first items).arguments.map Prod.fst ↔ n.type.HasArgument r := by
  have hinputs : (items.find? fun i => i.1 == r) = none ↔
      ∀ q ∈ n.type.inputs, q.register ≠ r := by
    rw [← List.forall_mem_map (f := Pin.register) (P := (· ≠ r)), ← hregisters,
      List.forall_mem_map, List.find?_eq_none]
    simp
  have hnone : (nodeCall n first items).arguments.lookup r = none ↔
      n.type.LeavesFree r ∧ ∀ q ∈ n.type.inputs, q.register ≠ r := by
    rw [lookup_nodeCall, Option.or_eq_none_iff, passedOutput_eq_none_iff, Option.map_eq_none_iff,
      hinputs]
  have hkeys : r ∉ (nodeCall n first items).arguments.map Prod.fst ↔
      (nodeCall n first items).arguments.lookup r = none := by
    simp only [List.lookup_eq_none_iff, List.mem_map, not_exists, not_and, bne_iff_ne]
    exact forall₂_congr fun a _ => ne_comm
  rw [← not_iff_not, hkeys, hnone, NodeType.HasArgument, ← NodeType.not_leavesFree_iff]
  push Not
  exact and_comm

/-- The arguments of a call whose items are the operands of the inputs. -/
theorem mem_nodeCall_iff_prescribes (hlength : n.inputs.length = n.type.inputs.length)
    (hitems : ItemsOf g access e (n.inputs.zip n.type.inputs) items)
    (htemp : ∀ k m, e.temp? g ⟨id, k⟩ = some m ↔ k < n.type.outputs.length ∧ first + k = m) :
    (r, a) ∈ (nodeCall n first items).arguments ↔ Prescribes g access e id n r a := by
  constructor
  · intro h
    cases a with
    | output m =>
      obtain ⟨hr, hm⟩ := output_mem_nodeCall.1 h
      obtain ⟨k, hk, hm⟩ := lastWith?_outputTemps_eq_some_iff.1 hm
      exact .output hr hk ((htemp k m).2 ⟨hk.lt_length, hm⟩)
    | input v =>
      obtain ⟨hfree, k, ⟨r, v, u⟩, hi, rfl, rfl, hbefore⟩ := input_mem_nodeCall.1 h
      obtain ⟨⟨b, pin⟩, hb, rfl, hv⟩ := hitems.flip.exists_getElem? k _ hi
      obtain ⟨hinput, hpin⟩ := List.getElem?_zip_eq_some.1 hb
      have hfirst := (forall_take_itemsOf hlength hitems k _).1 hbefore
      exact .input hfree ⟨pin, hpin, rfl, hfirst⟩ hinput hv
  · rintro (⟨hr, hk, hm⟩ | ⟨hfree, ⟨pin, hpin, rfl, hfirst⟩, hinput, hv⟩)
    · exact output_mem_nodeCall.2
        ⟨hr, lastWith?_outputTemps_eq_some_iff.2 ⟨_, hk, ((htemp _ _).1 hm).2⟩⟩
    · have hb : (n.inputs.zip n.type.inputs)[_]? = some (_, pin) :=
        List.getElem?_zip_eq_some.2 ⟨hinput, hpin⟩
      obtain ⟨⟨r, v', u⟩, hi, rfl, hv'⟩ := hitems.exists_getElem? _ _ hb
      have heq : v' = _ := Option.some.inj (Except.ok.inj (hv'.symm.trans hv))
      exact input_mem_nodeCall.2 ⟨hfree, _, _, hi, rfl, heq,
        (forall_take_itemsOf hlength hitems _ _).2 hfirst⟩

end Call

/-- Emitting a node ends with its call. There is one argument per register of an input or
of an output other than the returned ones, in the order of the registers. Where outputs
are passed at the register the argument is the temporary of the last of them, and
otherwise what the first input there is bound to; the last output with the return
register takes the result. -/
theorem emitNode_arguments (hg : g.Built) (hn : g.node? id = some n)
    (hnew : e.firsts.lookup id = none) (hnodup : available.Nodup)
    (h : emitNode g access available id e = .ok e') :
    ∃ before c, e'.statements = before ++ [.call c] ∧ c.function = n.type.function ∧
      (c.arguments.map Prod.fst).Pairwise (· < ·) ∧
      (∀ r, r ∈ c.arguments.map Prod.fst ↔ n.type.HasArgument r) ∧
      (∀ r a, (r, a) ∈ c.arguments ↔ Prescribes g access e' id n r a) ∧
      ∀ m, c.result = some m ↔
        ∃ k, LastWith n.type.outputs returnRegister k ∧ e'.temp? g ⟨id, k⟩ = some m := by
  obtain ⟨fed, hfresh, hbound, hcall⟩ := emitNode_eq_ok hn hnew hnodup h
  obtain ⟨items, hitems, rfl⟩ := emitCall_eq_ok hcall hbound
  have hlength := hg.wellWired.inputs_length hn
  have htemp (k m : Nat) : (fed.declare id n).temp? g ⟨id, k⟩ = some m ↔
      k < n.type.outputs.length ∧ fed.next + k = m := by
    rw [temp?_append_iff hn hfresh rfl]
    refine ⟨?_, fun hm => .inr ⟨rfl, hm⟩⟩
    rintro (hm | ⟨-, hm⟩)
    · have hsome := Emission.lookup_isSome_of_temp? (Option.isSome_iff_exists.2 ⟨m, hm⟩)
      simp [hfresh] at hsome
    · exact hm
  refine ⟨_, nodeCall n fed.next items, rfl, rfl, ?_, fun r => ?_, fun r a => ?_, fun m => ?_⟩
  · exact List.pairwise_map.2 (nodeCall_ascending n fed.next items)
  · exact mem_registers_nodeCall (items_registers hlength hitems)
  · exact mem_nodeCall_iff_prescribes hlength hitems htemp
  · have hresult : (nodeCall n fed.next items).result =
        (lastWith? (outputTemps n fed.next) returnRegister).map (·.2) :=
      resultTemp?_eq_lastWith? _
    rw [hresult, lastWith?_outputTemps_eq_some_iff]
    refine exists_congr fun k => and_congr_right fun hk => ?_
    exact ⟨fun hm => (htemp k m).2 ⟨hk.lt_length, hm⟩, fun hm => ((htemp k m).1 hm).2⟩

section Crowded

/-- A type with registers that inputs share, that outputs share and that both share; an
input has the return register. -/
def crowdedType : NodeType where
  name := "Crowded"
  inputs := [⟨"a", .float4, none, 2⟩, ⟨"b", .float4, none, -3⟩, ⟨"c", .float4, none, 2⟩,
    ⟨"d", .float4, none, 1⟩, ⟨"e", .float4, none, -1⟩]
  outputs := [⟨"v", .float4, none, 1⟩, ⟨"w", .float4, none, -1⟩, ⟨"x", .float4, none, 1⟩,
    ⟨"y", .float4, none, -1⟩, ⟨"z", .float4, none, 4⟩]
  aliasName := none

def crowdedNode : Node :=
  { Node.ofType "n" crowdedType with
    inputs := [.leaf ⟨.color, 0⟩, .leaf ⟨.color, 1⟩, .leaf ⟨.color, 2⟩, .leaf ⟨.color, 3⟩,
      .leaf ⟨.color, 4⟩] }

def crowdedGraph : Graph :=
  ⟨[crowdedNode]⟩

def crowdedAccess (l : Leaf) : Outcome String :=
  .ok (if l.index = 0 then "a" else if l.index = 1 then "b" else if l.index = 2 then "c" else
    if l.index = 3 then "d" else "e")

def crowdedCall : Call :=
  ⟨some 3, "Crowded", true, [(-3, .input (.text "b")), (-1, .input (.text "e")), (1, .output 2),
    (2, .input (.text "a")), (4, .output 4)]⟩

def crowdedEmission : Emission :=
  ⟨5, [(0, 0)], [.declare .float4 0, .declare .float4 1, .declare .float4 2, .declare .float4 3,
    .declare .float4 4, .call crowdedCall]⟩

theorem crowdedGraph_built : crowdedGraph.Built := by
  have node := Graph.Built.instantiate "n" crowdedType .empty
  have a := Graph.Built.bindLeaf (i := ⟨0, 0⟩) (l := ⟨.color, 0⟩) node rfl
  have b := Graph.Built.bindLeaf (i := ⟨0, 1⟩) (l := ⟨.color, 1⟩) a rfl
  have c := Graph.Built.bindLeaf (i := ⟨0, 2⟩) (l := ⟨.color, 2⟩) b rfl
  have d := Graph.Built.bindLeaf (i := ⟨0, 3⟩) (l := ⟨.color, 3⟩) c rfl
  exact .bindLeaf (i := ⟨0, 4⟩) (l := ⟨.color, 4⟩) d rfl

theorem emitNode_crowded :
    emitNode crowdedGraph crowdedAccess [0] 0 {} = .ok crowdedEmission := by
  have hproducers : emitProducers crowdedGraph crowdedAccess [] crowdedNode
      (crowdedNode.inputs.zip crowdedType.inputs) {} = .ok {} := by
    simp [crowdedNode, crowdedType, emitProducers]
  rw [emitNode]
  change (emitProducers crowdedGraph crowdedAccess [] crowdedNode
    (crowdedNode.inputs.zip crowdedType.inputs) {}).bind _ = _
  rw [hproducers]
  rfl

/-- Four of the ten pins are not passed; the others stand at their registers. -/
theorem emitNode_arguments_crowded :
    emitNode crowdedGraph crowdedAccess [0] 0 {} = .ok crowdedEmission ∧
      (∀ r, r ∈ [-3, -1, 1, 2, 4] ↔ crowdedType.HasArgument r) ∧
      (∀ r a, (r, a) ∈ crowdedCall.arguments ↔
        Prescribes crowdedGraph crowdedAccess crowdedEmission 0 crowdedNode r a) ∧
      ∃ k, LastWith crowdedType.outputs returnRegister k ∧
        crowdedEmission.temp? crowdedGraph ⟨0, k⟩ = some 3 := by
  obtain ⟨before, c, hstatements, -, -, hregisters, harguments, hresult⟩ :=
    emitNode_arguments crowdedGraph_built rfl rfl (by decide) emitNode_crowded
  have hsplit : before ++ [.call c] = crowdedEmission.statements.dropLast ++ [.call crowdedCall] :=
    hstatements.symm
  obtain ⟨-, hlast⟩ := List.append_inj' hsplit rfl
  cases hlast
  exact ⟨emitNode_crowded, hregisters, harguments, (hresult 3).1 rfl⟩

end Crowded

end Body

end MaterialGraph
