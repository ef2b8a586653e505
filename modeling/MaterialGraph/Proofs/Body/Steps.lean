import MaterialGraph.Proofs.Body.Progress

/-!
Properties of emissions that calls keep. A live node is called once, after the nodes
that feed it; what each such call keeps is kept by emitting a node with all that feeds
it, and no nodes are emitted but those that are still available.
-/

namespace MaterialGraph.Body

variable {p : PassGraph} {access : Leaf → Outcome String} {P : Emission → Prop}
  {e e' e'' : Emission} {id : Nat} {n : Node} {available : List Nat}
  {inputs : List (Binding × Pin)}

/-- Whether the nodes of the graph that some inputs take their values from are emitted. -/
def Emission.Feeds (g : Graph) (e : Emission) (inputs : List (Binding × Pin)) : Prop :=
  ∀ b ∈ inputs, ∀ ref, b.1 = .output ref → (g.node? ref.node).isSome →
    (e.firsts.lookup ref.node).isSome

/-- Whether a property of emissions is kept by the call of a live node that was not
emitted before, after those that feed it. -/
def CallsKeep (p : PassGraph) (access : Leaf → Outcome String) (P : Emission → Prop) : Prop :=
  ∀ e e' id n, p.Live id → p.graph.node? id = some n → e.firsts.lookup id = none →
    e.Feeds p.graph (n.inputs.zip n.type.inputs) → P e →
    emitCall p.graph access id n e = .ok e' → P e'

/-- One emission comes after another, with none but available nodes emitted in between. -/
structure Emission.Grows (available : List Nat) (e e' : Emission) : Prop where
  firsts : e.firsts <+: e'.firsts
  fresh : ∀ x, (e'.firsts.lookup x).isSome → (e.firsts.lookup x).isSome ∨ x ∈ available

namespace Emission.Grows

theorem refl (available : List Nat) (e : Emission) : e.Grows available e :=
  ⟨List.prefix_refl _, fun _ => .inl⟩

theorem trans (h : e.Grows available e') (h' : e'.Grows available e'') : e.Grows available e'' :=
  ⟨h.firsts.trans h'.firsts, fun x hx => (h'.fresh x hx).elim (h.fresh x) .inr⟩

theorem mono {available' : List Nat} (h : e.Grows available e') (hsub : available ⊆ available') :
    e.Grows available' e' :=
  ⟨h.firsts, fun x hx => (h.fresh x hx).imp_right fun hmem => hsub hmem⟩

theorem emitted (h : e.Grows available e') {x : Nat} (hx : (e.firsts.lookup x).isSome) :
    (e'.firsts.lookup x).isSome := by
  obtain ⟨first, hfirst⟩ := Option.isSome_iff_exists.1 hx
  exact Option.isSome_iff_exists.2 ⟨first, lookup_mono h.firsts hfirst⟩

end Emission.Grows

theorem firsts_of_emitCall {g : Graph} (h : emitCall g access id n e = .ok e') :
    e'.firsts = e.firsts ++ [(id, e.next)] := by
  rw [emitCall_eq_bind] at h
  obtain ⟨arguments, -, heq⟩ := Except.bind_eq_ok_iff.1 h
  cases heq
  rfl

/-- A call emits its own node and no other. -/
theorem lookup_of_emitCall {g : Graph} (h : emitCall g access id n e = .ok e') {x : Nat} :
    (e'.firsts.lookup x).isSome ↔ (e.firsts.lookup x).isSome ∨ x = id := by
  rw [firsts_of_emitCall h, List.lookup_append, Option.isSome_or, Bool.or_eq_true, List.lookup_cons]
  by_cases hx : x = id
  · simp [hx]
  · have hne : (x == id) = false := beq_false_of_ne hx
    simp [hne, hx]

theorem grows_of_emitCall {g : Graph} (h : emitCall g access id n e = .ok e')
    (hid : id ∈ available) : e.Grows available e' where
  firsts := firsts_of_emitCall h ▸ List.prefix_append ..
  fresh x hx := by
    rcases (lookup_of_emitCall h).1 hx with hx | rfl
    · exact .inl hx
    · exact .inr hid

def NodeKeeps (p : PassGraph) (access : Leaf → Outcome String) (P : Emission → Prop)
    (available : List Nat) (id : Nat) (e : Emission) : Prop :=
  ∀ e', p.Live id → available.Nodup → P e → emitNode p.graph access available id e = .ok e' →
    P e' ∧ e.Grows available e' ∧
      ((p.graph.node? id).isSome → (e'.firsts.lookup id).isSome)

def ProducersKeep (p : PassGraph) (access : Leaf → Outcome String) (P : Emission → Prop)
    (available : List Nat) (n : Node) (inputs : List (Binding × Pin)) (e : Emission) : Prop :=
  ∀ e', (∀ b ∈ inputs, ∀ ref, b.1 = .output ref → p.Live ref.node) → available.Nodup → P e →
    emitProducers p.graph access available n inputs e = .ok e' →
    P e' ∧ e.Grows available e' ∧ e'.Feeds p.graph inputs

theorem nodeKeeps_of_producers (hcalls : CallsKeep p access P) (hn : p.graph.node? id = some n)
    (hnew : ¬(e.firsts.lookup id).isSome) (havailable : id ∈ available)
    (hproducers : ProducersKeep p access P (available.erase id) n (n.inputs.zip n.type.inputs) e) :
    NodeKeeps p access P available id e := by
  intro e' hlive hnodup he hok
  rw [emitNode, hn] at hok
  simp only [hnew, havailable, dite_true] at hok
  obtain ⟨fed, hfed, hcall⟩ := Except.bind_eq_ok_iff.1 hok
  have hfeeders : ∀ b ∈ n.inputs.zip n.type.inputs, ∀ ref, b.1 = .output ref →
      p.Live ref.node := by
    intro b hb ref href
    have hmem : .output ref ∈ n.inputs := href ▸ (List.of_mem_zip hb).1
    exact hlive.feeder ⟨n, hn, ref, hmem, rfl⟩
  obtain ⟨hP, hgrows, hfeeds⟩ := hproducers fed hfeeders (hnodup.erase id) he hfed
  have hfresh : fed.firsts.lookup id = none := by
    rw [← Option.not_isSome_iff_eq_none]
    exact fun hid => (hgrows.fresh id hid).elim hnew hnodup.not_mem_erase
  refine ⟨hcalls fed e' id n hlive hn hfresh hfeeds hP hcall, ?_, fun _ => ?_⟩
  · exact (hgrows.mono List.erase_subset).trans (grows_of_emitCall hcall havailable)
  · exact (lookup_of_emitCall hcall).2 (.inr rfl)

theorem producersKeep_output {ref : OutputRef} {pin : Pin}
    (hnode : NodeKeeps p access P available ref.node e)
    (hrest : ∀ e', ProducersKeep p access P available n inputs e') :
    ProducersKeep p access P available n ((.output ref, pin) :: inputs) e := by
  intro e' hinputs hnodup he hok
  rw [emitProducers] at hok
  obtain ⟨fed, hfed, hothers⟩ := Except.bind_eq_ok_iff.1 hok
  have hlive := hinputs _ List.mem_cons_self ref rfl
  obtain ⟨hP, hgrows, hemitted⟩ := hnode fed hlive hnodup he hfed
  obtain ⟨hP', hgrows', hfeeds⟩ :=
    hrest fed e' (fun b hb => hinputs b (List.mem_cons_of_mem _ hb)) hnodup hP hothers
  refine ⟨hP', hgrows.trans hgrows', fun b hb ref' href hnode => ?_⟩
  rcases List.mem_cons.1 hb with rfl | hb
  · cases href
    exact hgrows'.emitted (hemitted hnode)
  · exact hfeeds b hb ref' href hnode

/-- By induction along the recursion of emission. -/
theorem emission_keeps (hcalls : CallsKeep p access P) :
    (∀ available id e, NodeKeeps p access P available id e) ∧
      ∀ available n inputs e, ProducersKeep p access P available n inputs e := by
  refine emitNode.mutual_induct p.graph (NodeKeeps p access P) (ProducersKeep p access P)
    ?absent ?emitted ?fresh ?cycle ?nil ?leaf ?unbound ?output
  case absent =>
    intro available id e hn e' _ _ he hok
    rw [emitNode, hn] at hok
    cases hok
    exact ⟨he, .refl .., fun hnode => absurd hnode (by simp [hn])⟩
  case emitted =>
    intro available id e n hn hid e' _ _ he hok
    rw [emitNode, hn] at hok
    simp only [hid, if_true] at hok
    cases hok
    exact ⟨he, .refl .., fun _ => hid⟩
  case fresh =>
    exact fun available id e n hn hnew havailable _ hproducers =>
      nodeKeeps_of_producers hcalls hn hnew havailable hproducers
  case cycle =>
    intro available id e n hn hnew hnot e' _ _ _ hok
    rw [emitNode, hn] at hok
    simp only [hnew, hnot, dite_false] at hok
    cases hok
  case nil =>
    intro available n e e' _ _ he hok
    rw [emitProducers] at hok
    cases hok
    exact ⟨he, .refl .., fun b hb => absurd hb List.not_mem_nil⟩
  case leaf =>
    intro available n e l pin rest hrest e' hinputs hnodup he hok
    rw [emitProducers] at hok
    obtain ⟨hP, hgrows, hfeeds⟩ :=
      hrest e' (fun b hb => hinputs b (List.mem_cons_of_mem _ hb)) hnodup he hok
    refine ⟨hP, hgrows, fun b hb ref href => ?_⟩
    rcases List.mem_cons.1 hb with rfl | hb
    · cases href
    · exact hfeeds b hb ref href
  case unbound =>
    intro available n e pin rest e' _ _ _ hok
    rw [emitProducers] at hok
    cases hok
  case output =>
    exact fun available n e ref pin rest hnode hrest => producersKeep_output hnode hrest

theorem nodeKeeps (hcalls : CallsKeep p access P) (available : List Nat) (id : Nat)
    (e : Emission) : NodeKeeps p access P available id e :=
  (emission_keeps hcalls).1 available id e

theorem producersKeep (hcalls : CallsKeep p access P) (available : List Nat) (n : Node)
    (inputs : List (Binding × Pin)) (e : Emission) :
    ProducersKeep p access P available n inputs e :=
  (emission_keeps hcalls).2 available n inputs e

/-- An output of a pass takes its value from a leaf or from a node that was emitted with
all that feeds it. -/
theorem emitOutput_eq_ok (hcalls : CallsKeep p access P) (he : P e) {o : Output} {field : Field}
    (h : emitOutput p access o field e = .ok e') :
    (p.output o = .unbound ∧ e' = e) ∨
    (∃ l t, p.output o = .leaf l ∧
      e' = { e with statements := e.statements ++ [.assign field (.text t)] }) ∨
    ∃ ref fed m, p.output o = .output ref ∧ P fed ∧ fed.temp? p.graph ref = some m ∧
      e' = { fed with statements := fed.statements ++ [.assign field (.temp m)] } := by
  unfold emitOutput at h
  split at h
  · next ho =>
    cases h
    exact .inl ⟨ho, rfl⟩
  · next l ho =>
    obtain ⟨t, -, heq⟩ := Except.bind_eq_ok_iff.1 h
    cases heq
    exact .inr (.inl ⟨l, t, ho, rfl⟩)
  · next ref ho =>
    obtain ⟨fed, hfed, hassign⟩ := Except.bind_eq_ok_iff.1 h
    obtain ⟨hP, -, -⟩ := nodeKeeps hcalls p.graph.ids ref.node e fed
      (PassGraph.live_of_output ho) List.nodup_range he hfed
    split at hassign
    · next m hm =>
      cases hassign
      exact .inr (.inr ⟨ref, fed, m, ho, hP, hm, rfl⟩)
    · cases hassign

/-- Whether a property is kept by the assignment of a text or of the temporary of an output. -/
def AssignsKeep (p : PassGraph) (P : Emission → Prop) : Prop :=
  ∀ e field value, (∀ m, value = .temp m → ∃ ref, e.temp? p.graph ref = some m) → P e →
    P { e with statements := e.statements ++ [.assign field value] }

/-- Emitting an output keeps what calls and assignments keep, and an output that is wired
then has a temporary. -/
theorem emitOutput_keeps (hcalls : CallsKeep p access P) (hassigns : AssignsKeep p P) (he : P e)
    {o : Output} {field : Field} (h : emitOutput p access o field e = .ok e') :
    P e' ∧ e.firsts <+: e'.firsts ∧
      ∀ ref, p.output o = .output ref → (e'.temp? p.graph ref).isSome := by
  have hgrows : CallsKeep p access fun x => P x ∧ e.firsts <+: x.firsts := by
    intro x x' id n hlive hn hnew hfeeds hx hcall
    refine ⟨hcalls x x' id n hlive hn hnew hfeeds hx.1 hcall, hx.2.trans ?_⟩
    rw [firsts_of_emitCall hcall]
    exact List.prefix_append ..
  rcases emitOutput_eq_ok hgrows ⟨he, List.prefix_refl _⟩ h with
    ⟨ho, rfl⟩ | ⟨l, t, ho, rfl⟩ | ⟨ref, fed, m, ho, ⟨hP, hfirsts⟩, hm, rfl⟩
  · refine ⟨he, List.prefix_refl _, fun ref href => ?_⟩
    cases ho.symm.trans href
  · refine ⟨hassigns e field _ nofun he, List.prefix_refl _, fun ref href => ?_⟩
    cases ho.symm.trans href
  · refine ⟨hassigns fed field _ (fun m' hm' => ⟨ref, ?_⟩) hP, hfirsts, fun ref' href => ?_⟩
    · rw [hm, Operand.temp.inj hm']
    · cases ho.symm.trans href
      exact Option.isSome_iff_exists.2 ⟨m, hm⟩

/-- What calls and assignments keep holds once all outputs are emitted, and those of them
that are wired then have temporaries. -/
theorem ofPass_keeps (hcalls : CallsKeep p access P) (hassigns : AssignsKeep p P) (hempty : P {})
    {body : Body} (h : ofPass p access = .ok body) :
    ∃ e, P e ∧ e.statements = body ∧
      ∀ o ref, p.output o = .output ref → (e.temp? p.graph ref).isSome := by
  obtain ⟨e₁, e₂, e₃, hcolor, halpha, hdepth, hbody⟩ := exists_emissions h
  have h₁ : P e₁ ∧ ∀ ref, p.output .color = .output ref → (e₁.temp? p.graph ref).isSome := by
    split at hcolor
    · next hnone =>
      cases hcolor
      refine ⟨hassigns {} .color white nofun hempty, fun ref href => ?_⟩
      have hunbound : p.output .color = .unbound := hnone
      cases hunbound.symm.trans href
    · obtain ⟨hP, -, htemp⟩ := emitOutput_keeps hcalls hassigns hempty hcolor
      exact ⟨hP, htemp⟩
  obtain ⟨hP₁, hcolor₁⟩ := h₁
  obtain ⟨hP₂, hfirsts₂, halpha₂⟩ := emitOutput_keeps hcalls hassigns hP₁ halpha
  obtain ⟨hP₃, hfirsts₃, hdepth₃⟩ := emitOutput_keeps hcalls hassigns hP₂ hdepth
  refine ⟨e₃, hP₃, hbody, fun o ref ho => ?_⟩
  have hmono {x y : Emission} (hxy : x.firsts <+: y.firsts)
      (hx : (x.temp? p.graph ref).isSome) : (y.temp? p.graph ref).isSome := by
    obtain ⟨m, hm⟩ := Option.isSome_iff_exists.1 hx
    exact Option.isSome_iff_exists.2 ⟨m, Emission.temp?_mono hxy hm⟩
  cases o with
  | color => exact hmono (hfirsts₂.trans hfirsts₃) (hcolor₁ ref ho)
  | alpha => exact hmono hfirsts₃ (halpha₂ ref ho)
  | depth => exact hdepth₃ ref ho

/-- A pass of which a body comes is sound. -/
theorem sound_of_ofPass (hg : p.graph.WellWired) {body : Body} (h : ofPass p access = .ok body) :
    p.Sound := by
  obtain ⟨e, -, -, htemps⟩ := ofPass_keeps (P := fun _ => True)
    (fun _ _ _ _ _ _ _ _ _ _ => trivial) (fun _ _ _ _ _ => trivial) trivial h
  have hlinked : p.Linked := by
    refine ⟨hg, fun o ref ho => ?_⟩
    obtain ⟨m, hm⟩ := Option.isSome_iff_exists.1 (htemps o ref ho)
    obtain ⟨-, n, -, hn, hlt, -⟩ := Emission.temp?_eq_some.1 hm
    exact ⟨n, hn, hlt⟩
  rcases ofPass_outcome hlinked access with ⟨-, -, hsound, -⟩ | ⟨f, -, hf⟩
  · exact hsound
  · cases h.symm.trans hf

end MaterialGraph.Body
