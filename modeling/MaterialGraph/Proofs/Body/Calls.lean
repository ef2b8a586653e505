import MaterialGraph.Proofs.Body.Evaluation

/-!
The call of a node. Main statement: where no two pins share a register, running
a call whose arguments are those of a node leaves in the temporary of each
output the value that the function of the node's type gives for it.
-/

namespace MaterialGraph.Body

variable {V : Type*} {t : NodeType} {outputs : List (Pin × Nat)}

/-- An input of a call: its register, the operand written there and its value. -/
abbrev Passed (V : Type*) :=
  Int × Operand × V

def inputItems (items : List (Passed V)) : List (Int × Argument) :=
  items.map fun i => (i.1, .input i.2.1)

def outputItems (outputs : List (Pin × Nat)) : List (Int × Argument) :=
  (outputs.filter fun o => o.1.register != returnRegister).map fun o => (o.1.register, .output o.2)

theorem outputArguments_eq (outputs : List (Pin × Nat)) :
    outputArguments outputs = placeAll true (outputItems outputs) [] := by
  rw [placeAll, outputItems, List.foldl_map]
  rfl

theorem inputArguments_eq {g : Graph} {access : Leaf → Outcome String} {e : Emission}
    {l : List (Binding × Pin)} {items : List (Passed V)} {args : List (Int × Argument)}
    (h : List.Forall₂ (fun b i => i.1 = b.2.register ∧
      operand? g access e b.1 = .ok (some i.2.1)) l items) :
    inputArguments g access e l args = .ok (placeAll false (inputItems items) args) := by
  induction h generalizing args with
  | nil => rfl
  | @cons b i l items hhead _ ih =>
    obtain ⟨hregister, hoperand⟩ := hhead
    simp only [inputArguments, hoperand, bind, Except.bind]
    rw [ih, ← hregister]
    rfl

/-- The only output with the return register is the one returned. -/
theorem resultTemp?_eq (hnodup : (outputs.map fun o => o.1.register).Nodup) {p : Pin} {m : Nat}
    (hmem : (p, m) ∈ outputs) (hp : p.register = returnRegister) :
    resultTemp? outputs = some m := by
  have hfilter : (p, m) ∈ outputs.filter fun o => o.1.register == returnRegister :=
    List.mem_filter.2 ⟨hmem, by simp [hp]⟩
  have hlast : (outputs.filter fun o => o.1.register == returnRegister).getLast? = some (p, m) := by
    cases h : (outputs.filter fun o => o.1.register == returnRegister).getLast? with
    | none => simp [List.getLast?_eq_none_iff.1 h] at hfilter
    | some o =>
      obtain ⟨ho, hr⟩ := List.mem_filter.1 (List.mem_of_getLast? h)
      have hreg : o.1.register = p.register := by rw [hp]; exact beq_iff_eq.1 hr
      rw [List.inj_on_of_nodup_map hnodup ho hmem hreg]
  rw [resultTemp?, hlast, Option.map_some]

theorem exists_of_resultTemp? {m : Nat} (h : resultTemp? outputs = some m) :
    ∃ p, (p, m) ∈ outputs ∧ p.register = returnRegister := by
  obtain ⟨⟨p, m'⟩, ho, rfl⟩ := Option.map_eq_some_iff.1 h
  obtain ⟨hmem, hr⟩ := List.mem_filter.1 (List.mem_of_getLast? ho)
  exact ⟨p, hmem, beq_iff_eq.1 hr⟩

theorem resultTemp?_isSome (hnodup : (outputs.map fun o => o.1.register).Nodup) :
    (resultTemp? outputs).isSome =
      (outputs.map Prod.fst).any fun p => p.register == returnRegister := by
  rw [Bool.eq_iff_iff, Option.isSome_iff_exists, List.any_eq_true]
  constructor
  · rintro ⟨m, hm⟩
    obtain ⟨p, hp, hr⟩ := exists_of_resultTemp? hm
    exact ⟨p, List.mem_map_of_mem hp, beq_iff_eq.2 hr⟩
  · rintro ⟨p, hp, hr⟩
    obtain ⟨⟨p, m⟩, hmem, rfl⟩ := List.mem_map.1 hp
    exact ⟨m, resultTemp?_eq hnodup hmem (beq_iff_eq.1 hr)⟩

/-- The arguments of a node's call, for outputs and inputs that share no register. -/
structure NodeCall (t : NodeType) (outputs : List (Pin × Nat)) (items : List (Passed V))
    (c : Call) : Prop where
  pins : outputs.map Prod.fst = t.outputs
  registers : items.map (·.1) = t.inputs.map Pin.register
  result : c.result = resultTemp? outputs
  function : c.function = t.function
  own : c.own = t.aliasName.isNone
  ascending : Ascending c.arguments
  perm : c.arguments.Perm (inputItems items ++ outputItems outputs)
  nodup : ((t.inputs ++ t.outputs).map Pin.register).Nodup

/-- Placing the outputs and then the inputs of a type gives the arguments of its call. -/
theorem nodeCall_placeAll {items : List (Passed V)} (hpins : outputs.map Prod.fst = t.outputs)
    (hregisters : items.map (·.1) = t.inputs.map Pin.register)
    (hnodup : ((t.inputs ++ t.outputs).map Pin.register).Nodup) :
    NodeCall t outputs items ⟨resultTemp? outputs, t.function, t.aliasName.isNone,
      placeAll false (inputItems items) (outputArguments outputs)⟩ := by
  have hkeys : ((inputItems items ++ outputItems outputs).map Prod.fst).Nodup := by
    have hin : (inputItems items).map Prod.fst = t.inputs.map Pin.register := by
      rw [← hregisters, inputItems, List.map_map]
      rfl
    have hout : (outputItems outputs).map Prod.fst =
        (outputs.filter fun o => o.1.register != returnRegister).map fun o => o.1.register := by
      rw [outputItems, List.map_map]
      rfl
    have houtputs : t.outputs.map Pin.register = outputs.map fun o => o.1.register := by
      rw [← hpins, List.map_map]
      rfl
    rw [List.map_append, houtputs] at hnodup
    rw [List.map_append, hin, hout]
    exact hnodup.sublist ((List.filter_sublist.map _).append_left _)
  have houtputs : (placeAll true (outputItems outputs) []).Perm (outputItems outputs) := by
    have hperm : (placeAll true (outputItems outputs) []).Perm (outputItems outputs ++ []) :=
      placeAll_perm (by rw [List.append_nil]; exact (List.map_append ▸ hkeys).of_append_right)
    rwa [List.append_nil] at hperm
  exact {
    pins := hpins
    registers := hregisters
    result := rfl
    function := rfl
    own := rfl
    ascending := by
      rw [outputArguments_eq]
      exact placeAll_ascending (placeAll_ascending .nil)
    perm := by
      rw [outputArguments_eq]
      have hall : (inputItems items ++ placeAll true (outputItems outputs) []).Perm
          (inputItems items ++ outputItems outputs) := houtputs.append_left _
      exact (placeAll_perm ((hall.map Prod.fst).nodup_iff.2 hkeys)).trans hall
    nodup := hnodup }

namespace NodeCall

variable {items : List (Passed V)} {c : Call}

theorem outputs_nodup (h : NodeCall t outputs items c) :
    (outputs.map fun o => o.1.register).Nodup := by
  have hnodup := h.nodup
  rw [List.map_append, ← h.pins, List.map_map] at hnodup
  exact hnodup.of_append_right

theorem items_nodup (h : NodeCall t outputs items c) : (items.map (·.1)).Nodup := by
  have hnodup := h.nodup
  rw [List.map_append, ← h.registers] at hnodup
  exact hnodup.of_append_left

private theorem filterMap_perm {α : Type*} (h : NodeCall t outputs items c)
    (f : Argument → Option α) :
    (c.arguments.filterMap fun a => (f a.2).map (Prod.mk a.1)) =
      byRegister ((inputItems items ++ outputItems outputs).filterMap
        fun a => (f a.2).map (Prod.mk a.1)) := by
  refine Ascending.eq_byRegister (List.pairwise_filterMap.2 (h.ascending.imp ?_))
    (h.perm.filterMap _)
  intro a b hab x hx y hy
  obtain ⟨_, _, rfl⟩ := Option.map_eq_some_iff.1 hx
  obtain ⟨_, _, rfl⟩ := Option.map_eq_some_iff.1 hy
  exact hab

/-- The operands of the inputs are written in the order of their registers. -/
theorem inputs_eq (h : NodeCall t outputs items c) :
    (c.arguments.filterMap fun a => a.2.input?) = (byRegister items).map fun i => i.2.1 := by
  have hpairs := h.filterMap_perm Argument.input?
  have hin : (inputItems items ++ outputItems outputs).filterMap
      (fun a => a.2.input?.map (Prod.mk a.1)) = items.map (Prod.map id Prod.fst) := by
    rw [List.filterMap_append, inputItems, outputItems, List.filterMap_map, List.filterMap_map]
    simp [Function.comp_def, Argument.input?, Prod.map]
  rw [hin, byRegister_map _ h.items_nodup] at hpairs
  have hvalues := congrArg (List.map Prod.snd) hpairs
  simpa [List.map_filterMap, Function.comp_def, Option.map_map] using hvalues

theorem outPins_eq (h : NodeCall t outputs items c) :
    outPins t = (outputs.filter fun o => o.1.register != returnRegister).map Prod.fst := by
  rw [outPins, ← h.pins, List.filter_map]
  rfl

/-- The function sees the call as one of its type. -/
theorem signature_eq (h : NodeCall t outputs items c) : Signature.ofCall c = .ofType t := by
  have hshape : (c.arguments.map fun a => (a.1, a.2.output?.isSome)) =
      byRegister (t.inputs.map (fun p => (p.register, false)) ++
        (outPins t).map fun p => (p.register, true)) := by
    refine Ascending.eq_byRegister (List.pairwise_map.2 (h.ascending.imp id)) ?_
    refine (h.perm.map _).trans (.of_eq ?_)
    have hin : t.inputs.map (fun p => (p.register, false)) =
        items.map (fun i => (i.1, false)) := by
      have hpairs := congrArg (List.map fun r => (r, false)) h.registers
      simpa only [List.map_map, Function.comp_def] using hpairs.symm
    rw [hin, h.outPins_eq, inputItems, outputItems]
    simp only [List.map_append, List.map_map, Function.comp_def, Argument.output?,
      Option.isSome_none, Option.isSome_some]
  have houts := congrArg (List.map Prod.snd) hshape
  rw [List.map_map] at houts
  rw [Signature.ofCall, Signature.ofType, h.function, h.own, h.result,
    resultTemp?_isSome h.outputs_nodup, h.pins]
  exact congrArg _ houts

/-- The out-argument of an output comes after those with smaller registers. -/
theorem outputs_getElem? (h : NodeCall t outputs items c) {p : Pin} {m : Nat}
    (hmem : (p, m) ∈ outputs) (hp : p.register ≠ returnRegister) :
    (c.arguments.filterMap fun a => a.2.output?)[(outPins t).countP
      fun q => q.register < p.register]? = some m := by
  have hpairs := h.filterMap_perm Argument.output?
  have hout : (inputItems items ++ outputItems outputs).filterMap
      (fun a => a.2.output?.map (Prod.mk a.1)) =
        (outputs.filter fun o => o.1.register != returnRegister).map
          fun o => (o.1.register, o.2) := by
    rw [List.filterMap_append, inputItems, outputItems, List.filterMap_map, List.filterMap_map]
    simp [Function.comp_def, Argument.output?]
  rw [hout] at hpairs
  have hnodup : (((outputs.filter fun o => o.1.register != returnRegister).map
      fun o => (o.1.register, o.2)).map Prod.fst).Nodup := by
    rw [List.map_map]
    exact h.outputs_nodup.sublist (List.filter_sublist.map _)
  have hpair : (p.register, m) ∈ byRegister ((outputs.filter fun o =>
      o.1.register != returnRegister).map fun o => (o.1.register, o.2)) := by
    refine (byRegister_perm _).mem_iff.2 (List.mem_map.2 ⟨(p, m), ?_, rfl⟩)
    exact List.mem_filter.2 ⟨hmem, by simpa using hp⟩
  obtain ⟨k, hk⟩ := List.getElem?_of_mem hpair
  have hposition : (outPins t).countP (fun q => q.register < p.register) = k := by
    have hcount := (byRegister_ascending hnodup).countP_lt hk
    rw [(byRegister_perm _).countP_eq, List.countP_map] at hcount
    rw [h.outPins_eq, List.countP_map]
    exact hcount
  have hvalues : (c.arguments.filterMap fun a => a.2.output?) =
      (c.arguments.filterMap fun a => a.2.output?.map (Prod.mk a.1)).map Prod.snd := by
    simp [List.map_filterMap, Function.comp_def, Option.map_map]
  rw [hposition, hvalues, hpairs, List.getElem?_map, hk, Option.map_some]

/-- The temporaries of the out-arguments are those of the outputs not returned. -/
theorem outputs_perm (h : NodeCall t outputs items c) :
    (c.arguments.filterMap fun a => a.2.output?).Perm
      ((outputs.filter fun o => o.1.register != returnRegister).map Prod.snd) := by
  refine (h.perm.filterMap _).trans (.of_eq ?_)
  rw [List.filterMap_append, inputItems, outputItems, List.filterMap_map, List.filterMap_map]
  simp [Function.comp_def, Argument.output?]

theorem exists_of_outputs (h : NodeCall t outputs items c) {m : Nat}
    (hm : m ∈ (c.arguments.filterMap fun a => a.2.output?)) :
    ∃ p, (p, m) ∈ outputs ∧ p.register ≠ returnRegister := by
  obtain ⟨⟨p, m⟩, ho, rfl⟩ := List.mem_map.1 (h.outputs_perm.mem_iff.1 hm)
  obtain ⟨hmem, hr⟩ := List.mem_filter.1 ho
  exact ⟨p, hmem, by simpa using hr⟩

theorem exists_of_result (h : NodeCall t outputs items c) {m : Nat} (hm : c.result = some m) :
    ∃ p, (p, m) ∈ outputs ∧ p.register = returnRegister :=
  exists_of_resultTemp? (h.result ▸ hm)

/-- The temporary of the returned value is not taken by an out-argument as well. -/
theorem not_mem_outputs (h : NodeCall t outputs items c)
    (hdistinct : (outputs.map Prod.snd).Nodup) {p : Pin} {m : Nat} (hmem : (p, m) ∈ outputs)
    (hp : p.register = returnRegister) : m ∉ (c.arguments.filterMap fun a => a.2.output?) := by
  intro hm
  obtain ⟨q, hq, hr⟩ := h.exists_of_outputs hm
  have heq : (q, m) = (p, m) := List.inj_on_of_nodup_map hdistinct hq hmem rfl
  exact hr ((congrArg (fun o => o.1.register) heq).trans hp)

theorem operands?_eq (h : NodeCall t outputs items c) {I : Interpretation V} {s : State V}
    (hvalues : ∀ i ∈ items, s.operand? I i.2.1 = some i.2.2) :
    s.operands? I (c.arguments.filterMap fun a => a.2.input?) =
      some (inRegisterOrder t (items.map fun i => i.2.2)) := by
  have hall : ∀ l : List (Passed V), (∀ i ∈ l, s.operand? I i.2.1 = some i.2.2) →
      s.operands? I (l.map fun i => i.2.1) = some (l.map fun i => i.2.2) := by
    intro l hl
    induction l with
    | nil => rfl
    | cons i rest ih =>
      simp only [List.map_cons, State.operands?, hl i List.mem_cons_self, Option.bind_some,
        ih fun j hj => hl j (List.mem_cons_of_mem _ hj), Option.map_some]
  rw [h.inputs_eq, hall _ fun i hi => hvalues i ((byRegister_perm items).mem_iff.1 hi)]
  have hzip : (items.map (·.1)).zip (items.map fun i => i.2.2) =
      items.map (Prod.map id Prod.snd) := by
    rw [List.zip_map']
    rfl
  rw [inRegisterOrder, ← h.registers, hzip, byRegister_map _ h.items_nodup, List.map_map]
  rfl

/-- Running the call gives every output the value of the function for it. -/
theorem run (h : NodeCall t outputs items c) {I : Interpretation V} {s : State V}
    (hvalues : ∀ i ∈ items, s.operand? I i.2.1 = some i.2.2)
    (hdistinct : (outputs.map Prod.snd).Nodup)
    (hdeclared : ∀ m ∈ outputs.map Prod.snd, s.cells m ≠ .undeclared) :
    ∃ s', s.call? I c = some s' ∧ s'.written = s.written ∧
      (∀ p m, (p, m) ∈ outputs →
        s'.cells m = .holding (I.output t (items.map fun i => i.2.2) p)) ∧
      ∀ m, m ∉ outputs.map Prod.snd → s'.cells m = s.cells m := by
  let results := I.call (.ofType t) (inRegisterOrder t (items.map fun i => i.2.2))
  obtain ⟨s₁, hs₁, hwritten₁, hresult₁, hframe₁⟩ := s.storeResult c.result results.returned
    fun m hm => by
      obtain ⟨p, hp, -⟩ := h.exists_of_result hm
      exact hdeclared m (List.mem_map_of_mem hp)
  have hdeclared₁ : ∀ m ∈ outputs.map Prod.snd, s₁.cells m ≠ .undeclared := by
    intro m hm
    by_cases hr : c.result = some m
    · rw [hresult₁ m hr]
      exact nofun
    · rw [hframe₁ m hr]
      exact hdeclared m hm
  obtain ⟨s₂, hs₂, hwritten₂, hheld₂, hframe₂⟩ := State.storeOuts?_of_nodup results.out
    (c.arguments.filterMap fun a => a.2.output?) s₁ 0
    (h.outputs_perm.nodup_iff.2 (hdistinct.sublist (List.filter_sublist.map _)))
    fun m hm => by
      obtain ⟨p, hp, -⟩ := h.exists_of_outputs hm
      exact hdeclared₁ m (List.mem_map_of_mem hp)
  refine ⟨s₂, ?_, hwritten₂.trans hwritten₁, fun p m hmem => ?_, fun m hm => ?_⟩
  · simp only [State.call?, h.operands?_eq hvalues, h.signature_eq, Option.bind_eq_bind,
      Option.bind_some]
    rw [hs₁]
    exact hs₂
  · by_cases hp : p.register = returnRegister
    · rw [hframe₂ m (h.not_mem_outputs hdistinct hmem hp),
        hresult₁ m (h.result.trans (resultTemp?_eq h.outputs_nodup hmem hp)),
        Interpretation.output, if_pos hp]
    · rw [hheld₂ _ m (h.outputs_getElem? hmem hp), Interpretation.output, if_neg hp, Nat.zero_add]
  · have hnot : m ∉ (c.arguments.filterMap fun a => a.2.output?) := by
      intro hmem
      obtain ⟨p, hp, -⟩ := h.exists_of_outputs hmem
      exact hm (List.mem_map_of_mem hp)
    have hr : c.result ≠ some m := by
      intro hr
      obtain ⟨p, hp, -⟩ := h.exists_of_result hr
      exact hm (List.mem_map_of_mem hp)
    rw [hframe₂ m hnot, hframe₁ m hr]

end NodeCall

end MaterialGraph.Body
