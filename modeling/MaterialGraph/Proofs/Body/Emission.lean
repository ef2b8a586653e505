import MaterialGraph.Proofs.Body.Calls
import MaterialGraph.Proofs.Graph.Built
import MaterialGraph.Proofs.PassGraph.Live

/-!
Emitting a node. The invariant of an emission is that its statements run and
that the temporary of every output of an emitted node then holds the value of
that output; emitting a node with all that feeds it keeps the invariant.
-/

namespace MaterialGraph.Body

open Relation (TransGen)

variable {V : Type*} {g : Graph} {access : Leaf → Outcome String} {I : Interpretation V}
  {e e' : Emission} {s : State V} {ref : OutputRef} {id m : Nat} {n : Node}

namespace Emission

/-- The temporaries that are not numbered yet are undeclared. -/
structure Sound (g : Graph) (access : Leaf → Outcome String) (I : Interpretation V)
    (e : Emission) (s : State V) : Prop where
  run : State.initial.run? I e.statements = some s
  fresh : ∀ m, e.next ≤ m → s.cells m = .undeclared
  held : ∀ ref m, e.temp? g ref = some m →
    ∃ v, Evaluates g access I (.output ref) v ∧ s.cells m = .holding v

theorem temp?_eq_some : e.temp? g ref = some m ↔
    ∃ first n, e.firsts.lookup ref.node = some first ∧ g.node? ref.node = some n ∧
      ref.output < n.type.outputs.length ∧ first + ref.output = m := by
  unfold temp?
  cases e.firsts.lookup ref.node with
  | none => simp
  | some first =>
    cases g.node? ref.node with
    | none => simp
    | some n => by_cases h : ref.output < n.type.outputs.length <;> simp [h]

/-- The outputs of an emitted node have temporaries. -/
theorem temp?_isSome (h : (e.firsts.lookup ref.node).isSome) (ho : g.HasOutput ref) :
    (e.temp? g ref).isSome := by
  obtain ⟨first, hfirst⟩ := Option.isSome_iff_exists.1 h
  obtain ⟨n, hn, hlt⟩ := ho
  exact Option.isSome_iff_exists.2
    ⟨first + ref.output, temp?_eq_some.2 ⟨first, n, hfirst, hn, hlt, rfl⟩⟩

theorem lookup_isSome_of_temp? (h : (e.temp? g ref).isSome) :
    (e.firsts.lookup ref.node).isSome := by
  obtain ⟨m, hm⟩ := Option.isSome_iff_exists.1 h
  obtain ⟨first, -, hfirst, -⟩ := temp?_eq_some.1 hm
  exact Option.isSome_iff_exists.2 ⟨first, hfirst⟩

theorem lookup_mono (h : e.firsts <+: e'.firsts) {first : Nat}
    (hid : e.firsts.lookup id = some first) : e'.firsts.lookup id = some first := by
  obtain ⟨rest, hrest⟩ := h
  rw [← hrest, List.lookup_append, hid, Option.some_or]

theorem temp?_mono (h : e.firsts <+: e'.firsts) (hm : e.temp? g ref = some m) :
    e'.temp? g ref = some m := by
  obtain ⟨first, n, hfirst, hn, hlt, heq⟩ := temp?_eq_some.1 hm
  exact temp?_eq_some.2 ⟨first, n, lookup_mono h hfirst, hn, hlt, heq⟩

/-- Whether an input can be passed: its leaf has a text or its producer is emitted. -/
def Ready (g : Graph) (access : Leaf → Outcome String) (e : Emission) : Binding → Prop
  | .unbound => False
  | .leaf l => ∃ t, access l = .ok t
  | .output ref => (e.temp? g ref).isSome

theorem Ready.mono {b : Binding} (h : e.firsts <+: e'.firsts) (hb : e.Ready g access b) :
    e'.Ready g access b := by
  cases b with
  | unbound => exact hb
  | leaf l => exact hb
  | output ref =>
    obtain ⟨m, hm⟩ := Option.isSome_iff_exists.1 hb
    exact Option.isSome_iff_exists.2 ⟨m, temp?_mono h hm⟩

theorem Sound.lt_next (h : e.Sound g access I s) {v : V} (hm : s.cells m = .holding v) :
    m < e.next := by
  by_contra hge
  rw [h.fresh m (Nat.le_of_not_lt hge)] at hm
  cases hm

/-- An input that is ready has an operand, which holds the value of the input. -/
theorem Sound.exists_operand (h : e.Sound g access I s) {b : Binding}
    (hb : e.Ready g access b) :
    ∃ o v, operand? g access e b = .ok (some o) ∧ s.operand? I o = some v ∧
      Evaluates g access I b v := by
  cases b with
  | unbound => exact hb.elim
  | leaf l =>
    obtain ⟨t, ht⟩ := hb
    exact ⟨.text t, I.text t, by rw [operand?, ht]; rfl, rfl, .leaf ht⟩
  | output ref =>
    obtain ⟨m, hm⟩ := Option.isSome_iff_exists.1 hb
    obtain ⟨v, hv, hcell⟩ := h.held ref m hm
    exact ⟨.temp m, v, by rw [operand?, hm], by rw [State.operand?, hcell], hv⟩

theorem operand?_mono (h : e.firsts <+: e'.firsts) {b : Binding} (hb : e.Ready g access b) :
    operand? g access e' b = operand? g access e b := by
  cases b with
  | unbound => rfl
  | leaf l => rfl
  | output ref =>
    obtain ⟨m, hm⟩ := Option.isSome_iff_exists.1 hb
    simp only [operand?, hm, temp?_mono h hm]

end Emission

theorem outputTemps_fst (n : Node) (first : Nat) :
    (outputTemps n first).map Prod.fst = n.type.outputs :=
  List.map_fst_zip (by simp)

theorem outputTemps_snd (n : Node) (first : Nat) :
    (outputTemps n first).map Prod.snd = List.range' first n.type.outputs.length :=
  List.map_snd_zip (by simp)

theorem outputTemps_length (n : Node) (first : Nat) :
    (outputTemps n first).length = n.type.outputs.length := by
  rw [← outputTemps_fst n first, List.length_map]

theorem outputTemps_nodup (n : Node) (first : Nat) :
    ((outputTemps n first).map Prod.snd).Nodup := by
  rw [outputTemps_snd]
  exact List.nodup_range'

theorem mem_outputTemps_snd {first : Nat} :
    m ∈ (outputTemps n first).map Prod.snd ↔
      first ≤ m ∧ m < first + n.type.outputs.length := by
  rw [outputTemps_snd, List.mem_range'_1]

theorem mem_outputTemps {first k : Nat} {p : Pin} (hp : n.type.outputs[k]? = some p) :
    (p, first + k) ∈ outputTemps n first := by
  have hk : k < n.type.outputs.length := (List.getElem?_eq_some_iff.1 hp).1
  refine List.mem_of_getElem? (i := k) ?_
  rw [outputTemps, List.getElem?_zip_eq_some]
  exact ⟨hp, by rw [List.getElem?_range' hk, Nat.one_mul]⟩

/-- The conditions under which the call of a node can be emitted. -/
structure Callable (n : Node) : Prop where
  inputs_length : n.inputs.length = n.type.inputs.length
  registers : ((n.type.inputs ++ n.type.outputs).map Pin.register).Nodup

/-- The operands and values of the inputs of a node, in the order of its pins. -/
private theorem exists_items (h : e.Sound g access I s) (next : Emission)
    (hnext : e.firsts <+: next.firsts) (l : List (Binding × Pin))
    (hready : ∀ b ∈ l, e.Ready g access b.1) :
    ∃ items : List (Passed V),
      List.Forall₂ (fun b i => i.1 = b.2.register ∧
        operand? g access next b.1 = .ok (some i.2.1)) l items ∧
      List.Forall₂ (fun b i => Evaluates g access I b.1 i.2.2) l items ∧
      ∀ i ∈ items, s.operand? I i.2.1 = some i.2.2 := by
  induction l with
  | nil => exact ⟨[], .nil, .nil, nofun⟩
  | cons b rest ih =>
    obtain ⟨items, hitems, hvalues, hheld⟩ := ih fun b hb => hready b (List.mem_cons_of_mem _ hb)
    have hb : e.Ready g access b.1 := hready b List.mem_cons_self
    obtain ⟨o, v, ho, hv, heval⟩ := h.exists_operand hb
    rw [← Emission.operand?_mono hnext hb] at ho
    refine ⟨(b.2.register, o, v) :: items, .cons ⟨rfl, ho⟩ hitems, .cons heval hvalues,
      fun i hi => ?_⟩
    rcases List.mem_cons.1 hi with rfl | hi
    · exact hv
    · exact hheld i hi

/-- The items of a call stand at the registers of the inputs. -/
theorem items_registers (hlength : n.inputs.length = n.type.inputs.length)
    {items : List (Passed V)} {R : Binding × Pin → Passed V → Prop}
    (h : List.Forall₂ (fun b i => i.1 = b.2.register ∧ R b i) (n.inputs.zip n.type.inputs) items) :
    items.map (·.1) = n.type.inputs.map Pin.register := by
  have hpins : ((n.inputs.zip n.type.inputs).map Prod.snd) = n.type.inputs :=
    List.map_snd_zip (Nat.le_of_eq hlength.symm)
  rw [← hpins, List.map_map]
  generalize n.inputs.zip n.type.inputs = l at h
  induction h with
  | nil => rfl
  | cons hhead _ ih => rw [List.map_cons, List.map_cons, ih, hhead.1]; rfl

/-- Where every input has a value, the outputs have those that the function gives. -/
private theorem evaluates_output (hn : g.node? id = some n)
    (hlength : n.inputs.length = n.type.inputs.length) {items : List (Passed V)}
    (h : List.Forall₂ (fun b i => Evaluates g access I b.1 i.2.2)
      (n.inputs.zip n.type.inputs) items)
    {k : Nat} {p : Pin} (hp : n.type.outputs[k]? = some p) :
    Evaluates g access I (.output ⟨id, k⟩) (I.output n.type (items.map fun i => i.2.2) p) := by
  have hzip : (n.inputs.zip n.type.inputs).length = n.inputs.length := by
    rw [List.length_zip, ← hlength, Nat.min_self]
  refine .output hn hp ?_ fun j b v hb hv => ?_
  · rw [List.length_map, ← h.length_eq, hzip]
  · rw [List.getElem?_map] at hv
    obtain ⟨i, hi, rfl⟩ := Option.map_eq_some_iff.1 hv
    obtain ⟨hj, rfl⟩ := List.getElem?_eq_some_iff.1 hb
    obtain ⟨hj', rfl⟩ := List.getElem?_eq_some_iff.1 hi
    have hget := h.get (hzip ▸ hj) hj'
    simpa only [List.get_eq_getElem, List.getElem_zip] using hget

/-- The emission after the outputs of a node are declared and before it is called. -/
def Emission.declare (e : Emission) (id : Nat) (n : Node) : Emission :=
  ⟨e.next + (outputTemps n e.next).length, e.firsts ++ [(id, e.next)],
    e.statements ++ (outputTemps n e.next).map fun o => .declare o.1.type o.2⟩

/-- The call of a node that is passed some items, where `first` is the temporary
of its first output. -/
def nodeCall (n : Node) (first : Nat) (items : List (Passed V)) : Call :=
  ⟨resultTemp? (outputTemps n first), n.type.function, n.type.aliasName.isNone,
    placeAll false (inputItems items) (outputArguments (outputTemps n first))⟩

theorem emitCall_eq {items : List (Passed V)}
    (h : List.Forall₂ (fun b i => i.1 = b.2.register ∧
      operand? g access (e.declare id n) b.1 = .ok (some i.2.1))
        (n.inputs.zip n.type.inputs) items) :
    emitCall g access id n e = .ok { e.declare id n with
      statements := (e.declare id n).statements ++ [.call (nodeCall n e.next items)] } := by
  unfold Emission.declare at h
  rw [emitCall, inputArguments_eq h]
  rfl

namespace Emission

/-- What holds a value was declared before. -/
theorem Sound.not_mem_outputTemps (h : e.Sound g access I s) {v : V}
    (hm : s.cells m = .holding v) (n : Node) : m ∉ (outputTemps n e.next).map Prod.snd := by
  rw [mem_outputTemps_snd]
  exact fun hrange => absurd (h.lt_next hm) (Nat.not_lt.2 hrange.1)

theorem Sound.run_declare (h : e.Sound g access I s) (id : Nat) (n : Node) :
    ∃ s', State.initial.run? I (e.declare id n).statements = some s' ∧ s'.written = s.written ∧
      ∀ m, s'.cells m =
        if m ∈ (outputTemps n e.next).map Prod.snd then .declared else s.cells m := by
  obtain ⟨s', hrun, hwritten, hcells⟩ := State.run?_declarations I Pin.type
    (outputTemps n e.next) s (outputTemps_nodup n e.next) fun m hm =>
      h.fresh m (mem_outputTemps_snd.1 hm).1
  refine ⟨s', ?_, hwritten, hcells⟩
  rw [declare, State.run?_append, h.run, Option.bind_some, hrun]

/-- A temporary after a node is emitted is one from before or one of the node. -/
theorem temp?_of_append (he : e'.firsts = e.firsts ++ [(id, e.next)])
    (hm : e'.temp? g ref = some m) :
    e.temp? g ref = some m ∨ ref.node = id ∧ e.next + ref.output = m ∧ g.HasOutput ref := by
  obtain ⟨first, n, hfirst, hn, hlt, rfl⟩ := temp?_eq_some.1 hm
  rw [he, List.lookup_append] at hfirst
  cases hwas : e.firsts.lookup ref.node with
  | some was =>
    obtain rfl : was = first := by simpa [hwas] using hfirst
    exact .inl (temp?_eq_some.2 ⟨was, n, hwas, hn, hlt, rfl⟩)
  | none =>
    rw [hwas, Option.none_or, List.lookup_cons] at hfirst
    split at hfirst
    · next heq =>
      obtain rfl : e.next = first := Option.some.inj hfirst
      exact .inr ⟨beq_iff_eq.1 heq, rfl, n, hn, hlt⟩
    · cases hfirst

/-- Emitting the call of a node whose inputs are ready. -/
theorem Sound.emitCall (h : e.Sound g access I s) (hn : g.node? id = some n)
    (hcall : Callable n) (hready : ∀ b ∈ n.inputs, e.Ready g access b) :
    ∃ e' s', Body.emitCall g access id n e = .ok e' ∧ e'.Sound g access I s' ∧
      s'.written = s.written ∧ e'.firsts = e.firsts ++ [(id, e.next)] := by
  obtain ⟨items, hitems, hvalues, hheld⟩ := exists_items h (e.declare id n)
    (List.prefix_append ..) (n.inputs.zip n.type.inputs) fun b hb =>
      hready b.1 (List.of_mem_zip hb).1
  have hnode : NodeCall n.type (outputTemps n e.next) items (nodeCall n e.next items) :=
    nodeCall_placeAll (outputTemps_fst n e.next) (items_registers hcall.inputs_length hitems)
      hcall.registers
  obtain ⟨s₁, hrun₁, hwritten₁, hcells₁⟩ := h.run_declare id n
  have hold : ∀ m v, s.cells m = .holding v → s₁.cells m = .holding v := fun m v hm => by
    rw [hcells₁, if_neg (h.not_mem_outputTemps hm n), hm]
  obtain ⟨s₂, hrun₂, hwritten₂, hheld₂, hframe₂⟩ := hnode.run
    (fun i hi => State.operand?_mono hold (hheld i hi)) (outputTemps_nodup n e.next)
    fun m hm => by
      rw [hcells₁, if_pos hm]
      exact nofun
  refine ⟨_, s₂, emitCall_eq hitems, ⟨?_, fun m hm => ?_, fun ref m hm => ?_⟩,
    hwritten₂.trans hwritten₁, rfl⟩
  · rw [State.run?_append, hrun₁, Option.bind_some, State.run?, State.step?, hrun₂]
    rfl
  · have hlater : e.next + n.type.outputs.length ≤ m := by
      rwa [← outputTemps_length n e.next]
    have hout : m ∉ (outputTemps n e.next).map Prod.snd := by
      rw [mem_outputTemps_snd]
      omega
    rw [hframe₂ m hout, hcells₁, if_neg hout, h.fresh m (by omega)]
  · rcases temp?_of_append rfl hm with hm | ⟨hid, rfl, n', hn', hlt⟩
    · obtain ⟨v, hv, hcell⟩ := h.held ref m hm
      exact ⟨v, hv, by rw [hframe₂ m (h.not_mem_outputTemps hcell n), hold m v hcell]⟩
    · obtain ⟨node, output⟩ := ref
      obtain rfl : node = id := hid
      obtain rfl : n = n' := Option.some.inj (hn.symm.trans hn')
      have hp := List.getElem?_eq_getElem hlt
      exact ⟨_, evaluates_output hn hcall.inputs_length hvalues hp,
        hheld₂ _ _ (mem_outputTemps hp)⟩

end Emission

end MaterialGraph.Body
