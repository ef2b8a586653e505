import MaterialGraph.Body.Accessor
import MaterialGraph.Proofs.Body.Walk

/-!
Emission preserves the meaning of a pass. Main statement: the body of a pass is
emitted, its statements run, and the result then holds the values of the outputs.
-/

namespace MaterialGraph.Body

variable {V : Type*} {p : PassGraph} {access : Leaf → Outcome String} {I : Interpretation V}

/-- The values of the outputs of a pass: one for every output that is bound. -/
structure OutputValues (p : PassGraph) (access : Leaf → Outcome String) (I : Interpretation V)
    (values : Output → Option V) : Prop where
  value_iff : ∀ o v, values o = some v ↔ Evaluates p.graph access I (p.output o) v
  absent_iff : ∀ o, values o = none ↔ p.output o = .unbound

/-- The white of a color that is not given. -/
def Interpretation.white (I : Interpretation V) : V :=
  I.text "PRECISION_COLOR_TYPE(1.0, 1.0, 1.0, 1.0)"

/-- Next to an alpha output, a color that is given goes to three components only. -/
def colorField (values : Output → Option V) : Field :=
  if (values .color).isSome && (values .alpha).isSome then .colorXyz else .color

/-- What a body assigns to the fields of the result, in order. -/
def assignments (white : V) (values : Output → Option V) : List (Field × V) :=
  (colorField values, (values .color).getD white) ::
    ((values .alpha).toList.map (Prod.mk .colorW) ++ (values .depth).toList.map (Prod.mk .depth))

/-- A value for each output. -/
def byOutput (color alpha depth : Option V) : Output → Option V
  | .color => color
  | .alpha => alpha
  | .depth => depth

theorem emitOutput_unbound {o : Output} {field : Field} {e : Emission}
    (h : p.output o = .unbound) : emitOutput p access o field e = .ok e := by
  rw [emitOutput, h]

/-- Assigning an operand to a field changes what is written and nothing else. -/
theorem Emission.Sound.assign {e : Emission} {s : State V} (hs : e.Sound p.graph access I s)
    {value : Operand} {v : V} (hv : s.operand? I value = some v) (field : Field) :
    Emission.Sound p.graph access I
      { e with statements := e.statements ++ [.assign field value] }
      { s with written := s.written ++ [(field, v)] } where
  run := by
    rw [State.run?_append, hs.run, Option.bind_some, State.run?, State.step?, hv]
    rfl
  fresh := hs.fresh
  held := hs.held

/-- A bound output ends with the assignment of its value. -/
theorem emitOutput_bound (h : p.Emittable access) {o : Output} (field : Field) {e : Emission}
    {s : State V} (hs : e.Sound p.graph access I s) (hbound : p.output o ≠ .unbound) :
    ∃ e' s' v, emitOutput p access o field e = .ok e' ∧ e'.Sound p.graph access I s' ∧
      Evaluates p.graph access I (p.output o) v ∧ s'.written = s.written ++ [(field, v)] := by
  cases ho : p.output o with
  | unbound => exact absurd ho hbound
  | leaf l =>
    obtain ⟨t, ht⟩ := h.texts l (.inl ⟨o, ho⟩)
    have hoperand : s.operand? I (.text t) = some (I.text t) := rfl
    refine ⟨_, _, I.text t, ?_, hs.assign hoperand field, .leaf ht, rfl⟩
    rw [emitOutput, ho]
    simp only [ht, bind, Except.bind]
  | output ref =>
    have href := h.outputs o ref ho
    obtain ⟨n, hn, -⟩ := h.outputs o ref ho
    obtain ⟨e₁, s₁, hemit, hs₁, hwritten, -, hid⟩ := emitsNode h p.graph.ids ref.node e s n hn
      (PassGraph.live_of_output ho) (OnWay.start _ _ _) hs
    obtain ⟨m, hm⟩ := Option.isSome_iff_exists.1 (Emission.temp?_isSome hid href)
    obtain ⟨v, hv, hcell⟩ := hs₁.held ref m hm
    have hoperand : s₁.operand? I (.temp m) = some v := by rw [State.operand?, hcell]
    refine ⟨_, _, v, ?_, hs₁.assign hoperand field, hv, by rw [hwritten]⟩
    rw [emitOutput, ho]
    simp only [hemit, hm, bind, Except.bind]

theorem Emission.Sound.initial (p : PassGraph) (access : Leaf → Outcome String)
    (I : Interpretation V) : Emission.Sound p.graph access I {} .initial where
  run := rfl
  fresh _ _ := rfl
  held ref m hm := by simp [Emission.temp?] at hm

/-- An output adds the assignment of its value if it is bound, and nothing if not. -/
theorem emitOutput_step (h : p.Emittable access) (o : Output) (field : Field) {e : Emission}
    {s : State V} (hs : e.Sound p.graph access I s) :
    ∃ e' s', ∃ value : Option V, emitOutput p access o field e = .ok e' ∧
      e'.Sound p.graph access I s' ∧ (value = none ↔ p.output o = .unbound) ∧
      (∀ v, value = some v → Evaluates p.graph access I (p.output o) v) ∧
      s'.written = s.written ++ value.toList.map (Prod.mk field) := by
  by_cases ho : p.output o = .unbound
  · exact ⟨e, s, none, emitOutput_unbound ho, hs, by simp [ho], nofun, by simp⟩
  · obtain ⟨e', s', v, hemit, hs', hv, hwritten⟩ := emitOutput_bound h field hs ho
    refine ⟨e', s', some v, hemit, hs', by simp [ho], fun w hw => ?_, hwritten⟩
    cases hw
    exact hv

/-- The values found output by output are the values of the pass. -/
theorem outputValues_of {values : Output → Option V}
    (habsent : ∀ o, values o = none ↔ p.output o = .unbound)
    (hvalue : ∀ o v, values o = some v → Evaluates p.graph access I (p.output o) v) :
    OutputValues p access I values where
  absent_iff := habsent
  value_iff o v := by
    refine ⟨hvalue o v, fun hv => ?_⟩
    cases ho : values o with
    | none =>
      rw [(habsent o).1 ho] at hv
      cases hv
    | some w => rw [(hvalue o w ho).unique hv]

/-- The color comes first, white if it is not given. -/
theorem emitColor_step (h : p.Emittable access) (field : Field) :
    ∃ e s, ∃ color : Option V,
      (if p.color = .unbound then .ok ⟨0, [], [.assign .color white]⟩
        else emitOutput p access .color field {}) = Except.ok e ∧
      e.Sound p.graph access I s ∧ (color = none ↔ p.output .color = .unbound) ∧
      (∀ v, color = some v → Evaluates p.graph access I (p.output .color) v) ∧
      s.written = [(if color.isSome then field else .color, color.getD I.white)] := by
  have hinitial := Emission.Sound.initial p access I
  by_cases hcolor : p.color = .unbound
  · have hwhite : State.initial.operand? I white = some I.white := rfl
    exact ⟨_, _, none, if_pos hcolor, hinitial.assign hwhite .color,
      by simp [PassGraph.output, hcolor], nofun, rfl⟩
  · have hbound : p.output .color ≠ .unbound := hcolor
    obtain ⟨e, s, v, hemit, hs, hv, hwritten⟩ := emitOutput_bound h field hinitial hbound
    refine ⟨e, s, some v, by rw [if_neg hcolor, hemit], hs, by simp [hbound], fun w hw => ?_,
      hwritten⟩
    cases hw
    exact hv

/-- The body of a pass is what its three outputs emit one after the other. -/
theorem ofPass_eq_ok {e₁ e₂ e₃ : Emission}
    (hcolor : (if p.color = .unbound then .ok ⟨0, [], [.assign .color white]⟩
      else emitOutput p access .color (if p.alpha = .unbound then .color else .colorXyz) {}) =
        Except.ok e₁)
    (halpha : emitOutput p access .alpha .colorW e₁ = .ok e₂)
    (hdepth : emitOutput p access .depth .depth e₂ = .ok e₃) :
    ofPass p access = .ok e₃.statements := by
  simp only [ofPass, bind, Except.bind]
  by_cases h : p.color = .unbound
  · rw [if_pos h] at hcolor ⊢
    cases hcolor
    simp only [halpha, hdepth]
  · rw [if_neg h] at hcolor ⊢
    simp only [hcolor, halpha, hdepth]

/-- What the assignments of a body leave in the parts of the result. -/
theorem result?_assignments {s : State V} {values : Output → Option V} {white : V}
    (h : s.written = assignments white values) :
    s.result? .xyz = some ((values .color).getD white) ∧
      s.result? .w = some ((values .alpha).getD ((values .color).getD white)) ∧
      s.result? .depth = values .depth := by
  simp only [State.result?, h, assignments, colorField]
  cases values .color <;> cases values .alpha <;> cases values .depth <;> exact ⟨rfl, rfl, rfl⟩

/-- Running the body of a pass leaves in the result the values of its outputs. -/
theorem run?_ofPass (p : PassGraph) (a : Accessors) (h : p.Emittable a.text)
    (I : Interpretation V) :
    ∃ body s values, ofPass p a.text = .ok body ∧ State.initial.run? I body = some s ∧
      OutputValues p a.text I values ∧ s.written = assignments I.white values ∧
      s.result? .xyz = some ((values .color).getD I.white) ∧
      s.result? .w = some ((values .alpha).getD ((values .color).getD I.white)) ∧
      s.result? .depth = values .depth := by
  obtain ⟨e₁, s₁, color, hemit₁, hs₁, hcolor, hcolor', hwritten₁⟩ :=
    emitColor_step (I := I) h (if p.alpha = .unbound then .color else .colorXyz)
  obtain ⟨e₂, s₂, alpha, hemit₂, hs₂, halpha, halpha', hwritten₂⟩ :=
    emitOutput_step h .alpha .colorW hs₁
  obtain ⟨e₃, s₃, depth, hemit₃, hs₃, hdepth, hdepth', hwritten₃⟩ :=
    emitOutput_step h .depth .depth hs₂
  let values := byOutput color alpha depth
  have hvalues : OutputValues p a.text I values := by
    refine outputValues_of (fun o => ?_) fun o v hv => ?_
    · cases o <;> assumption
    · cases o
      · exact hcolor' v hv
      · exact halpha' v hv
      · exact hdepth' v hv
  have hfield : (if color.isSome then (if p.alpha = .unbound then .color else .colorXyz) else
      Field.color) = colorField values := by
    have hboth : alpha = none ↔ p.alpha = .unbound := halpha
    cases alpha <;> cases color <;> simp_all [colorField, byOutput, values]
  have hwritten : s₃.written = assignments I.white values := by
    rw [hwritten₃, hwritten₂, hwritten₁, hfield, List.append_assoc]
    rfl
  exact ⟨e₃.statements, s₃, values, ofPass_eq_ok hemit₁ hemit₂ hemit₃, hs₃.run, hvalues, hwritten,
    result?_assignments hwritten⟩

/-- The outputs of a split feed a mix, the second output first. The mix gives the
color and the second output of the split the alpha. -/
def splitMix : PassGraph where
  pass := .default
  graph := ⟨[
    { name := "split"
      type := ⟨"Split", [⟨"v", .float4, none, 0⟩],
        [⟨"rgb", .float3, none, -1⟩, ⟨"a", .float, none, 1⟩], none⟩
      inputs := [.leaf ⟨.color, 0⟩]
      consumers := [[⟨1, 1⟩], [⟨1, 0⟩]] },
    { name := "mix"
      type := ⟨"Mix", [⟨"a", .float, none, 1⟩, ⟨"rgb", .float3, none, 0⟩],
        [⟨"r", .float3, none, -1⟩], some "mix"⟩
      inputs := [.output ⟨0, 1⟩, .output ⟨0, 0⟩]
      consumers := [[]] }]⟩
  color := .output ⟨1, 0⟩
  alpha := .output ⟨0, 1⟩
  depth := .leaf ⟨.color, 0⟩

theorem splitMix_built : splitMix.graph.Built := by
  have split := Graph.Built.instantiate "split" (splitMix.graph.nodes[0]).type .empty
  have mix := Graph.Built.instantiate "mix" (splitMix.graph.nodes[1]).type split
  have leaf := Graph.Built.bindLeaf (i := ⟨0, 0⟩) (l := ⟨.color, 0⟩) mix rfl
  have second := Graph.Built.connect (o := ⟨0, 1⟩) (i := ⟨1, 0⟩) leaf rfl
  exact .connect (o := ⟨0, 0⟩) (i := ⟨1, 1⟩) second rfl

theorem splitMix_node {id : Nat} {n : Node} (hn : splitMix.graph.node? id = some n) :
    (id = 0 ∧ n = splitMix.graph.nodes[0]) ∨ id = 1 ∧ n = splitMix.graph.nodes[1] := by
  have hlt : id < 2 := Graph.node?_lt hn
  obtain rfl | rfl : id = 0 ∨ id = 1 := by omega
  · exact .inl ⟨rfl, Option.some.inj hn.symm⟩
  · exact .inr ⟨rfl, Option.some.inj hn.symm⟩

def noAccessors : Accessors :=
  ⟨.empty, {}, ⟨[]⟩⟩

theorem splitMix_emittable : splitMix.Emittable noAccessors.text where
  built := splitMix_built
  outputs o ref ho := by
    cases o
    · cases ho
      exact ⟨_, rfl, by decide⟩
    · cases ho
      exact ⟨_, rfl, by decide⟩
    · cases ho
  acyclic id _ := by
    refine Graph.not_transGen_of_lt (fun a b hab => ?_) id
    obtain ⟨n, hn, ref, href, rfl⟩ := hab
    rcases splitMix_node hn with ⟨rfl, rfl⟩ | ⟨rfl, rfl⟩
    · simp [splitMix] at href
    · simp [splitMix] at href
      rcases href with rfl | rfl <;> decide
  bound id n _ hn := by
    rcases splitMix_node hn with ⟨-, rfl⟩ | ⟨-, rfl⟩ <;> decide
  texts l hl := by
    have hl' : l = ⟨.color, 0⟩ := by
      rcases hl with ⟨o, ho⟩ | ⟨id, n, -, hn, hmem⟩
      · cases o <;> cases ho
        rfl
      · rcases splitMix_node hn with ⟨-, rfl⟩ | ⟨-, rfl⟩ <;> simp_all [splitMix]
    exact ⟨"U_color", hl' ▸ rfl⟩
  registers id n _ hn := by
    rcases splitMix_node hn with ⟨-, rfl⟩ | ⟨-, rfl⟩ <;> decide

/-- Values are spelled as the calls that give them. -/
def spelled : Interpretation String where
  call f values :=
    let call := f.function ++ "(" ++ ", ".intercalate values ++ ")"
    ⟨call, fun k => call ++ "." ++ toString k⟩
  text := id

/-- The value of an output, from values that the inputs are known to have. -/
theorem Evaluates.output_of {g : Graph} {access : Leaf → Outcome String} {I : Interpretation V}
    (ref : OutputRef) {n : Node} {pin : Pin} {values : List V} (hn : g.node? ref.node = some n)
    (hpin : n.type.outputs[ref.output]? = some pin)
    (hvalues : List.Forall₂ (Evaluates g access I) n.inputs values) :
    Evaluates g access I (.output ref) (I.output n.type values pin) := by
  refine .output hn hpin hvalues.length_eq.symm fun k b v hb hv => ?_
  obtain ⟨hk, rfl⟩ := List.getElem?_eq_some_iff.1 hb
  obtain ⟨hk', rfl⟩ := List.getElem?_eq_some_iff.1 hv
  exact (List.forall₂_iff_get.1 hvalues).2 k hk hk'

theorem run?_ofPass_splitMix :
    splitMix.Emittable noAccessors.text ∧
      ∃ body s, ofPass splitMix noAccessors.text = .ok body ∧
        State.initial.run? spelled body = some s ∧
        s.result? .xyz = some "mix(Split(U_color), Split(U_color).0)" ∧
        s.result? .w = some "Split(U_color).0" ∧ s.result? .depth = some "U_color" := by
  refine ⟨splitMix_emittable, ?_⟩
  obtain ⟨body, s, values, hbody, hrun, hvalues, -, hxyz, hw, hdepth⟩ :=
    run?_ofPass splitMix noAccessors splitMix_emittable spelled
  have hleaf : Evaluates splitMix.graph noAccessors.text spelled (.leaf ⟨.color, 0⟩) "U_color" :=
    .leaf rfl
  have hrgb := Evaluates.output_of ⟨0, 0⟩ (n := splitMix.graph.nodes[0]) rfl rfl
    (.cons hleaf .nil)
  have ha := Evaluates.output_of ⟨0, 1⟩ (n := splitMix.graph.nodes[0]) rfl rfl
    (.cons hleaf .nil)
  have hmix := Evaluates.output_of ⟨1, 0⟩ (n := splitMix.graph.nodes[1]) rfl rfl
    (.cons ha (.cons hrgb .nil))
  have hcolor := (hvalues.value_iff .color _).2 hmix
  have halpha := (hvalues.value_iff .alpha _).2 ha
  have hdepth' := (hvalues.value_iff .depth _).2 hleaf
  refine ⟨body, s, hbody, hrun, ?_, ?_, by rw [hdepth, hdepth']⟩
  · rw [hxyz, hcolor]
    simp [splitMix, Interpretation.output, inRegisterOrder, byRegister, outPins, spelled,
      returnRegister, List.mergeSort]
    decide
  · rw [hw, halpha]
    simp [splitMix, Interpretation.output, inRegisterOrder, byRegister, outPins, spelled,
      returnRegister]
    decide

end MaterialGraph.Body
