import MaterialGraph.Proofs.Body.Assignment
import MaterialGraph.Proofs.Body.Meaning
import MaterialGraph.Proofs.PassGraph.Reached
import MaterialGraph.Proofs.Text.Number

/-!
The order of a body. The emission of a pass lists the nodes that it emits, each with the
temporary of its first output; the calls and the declarations of the body follow this
list. Main statement: the nodes listed are those that the outputs depend on, each listed
once and after its producers, the temporaries are numbered as they are declared, and no
statement uses one that is not declared before it.
-/

namespace MaterialGraph

def Statement.call? : Statement → Option Call
  | .call c => some c
  | .declare .. | .assign .. => none

def Statement.declaration? : Statement → Option (BasicType × Nat)
  | .declare type temp => some (type, temp)
  | .call .. | .assign .. => none

def Statement.field? : Statement → Option Field
  | .assign field _ => some field
  | .declare .. | .call .. => none

/-- The temporaries that a statement gives values to or takes values from. -/
def Statement.uses (s : Statement) : List Nat :=
  s.writes ++ s.reads

theorem tempName_injective {m n : Nat} (h : tempName m = tempName n) : m = n := by
  obtain ⟨-, hdigits⟩ := List.cons.inj (String.ofList_injective h)
  exact leftpad_toDigits_injective 3 hdigits

namespace Body

variable {p : PassGraph} {g : Graph} {access : Leaf → Outcome String} {e e' : Emission}
  {b : Body} {ref : OutputRef} {id m first : Nat} {n : Node} {order order' : List (Nat × Nat)}

def calls (b : Body) : List Call :=
  b.filterMap Statement.call?

def declarations (b : Body) : List (BasicType × Nat) :=
  b.filterMap Statement.declaration?

/-- The temporaries that are declared. -/
def declared (b : Body) : List Nat :=
  (declarations b).map Prod.snd

/-- The fields of the result that are assigned. -/
def fields (b : Body) : List Field :=
  b.filterMap Statement.field?

/-- The outputs of a listed node: their types and temporaries. -/
def outputsOf (g : Graph) (x : Nat × Nat) : List (BasicType × Nat) :=
  (g.node? x.1).elim [] fun n => (outputTemps n x.2).map fun o => (o.1.type, o.2)

/-- Whether a call is that of a listed node, with the operands of its inputs. -/
def CallOf (g : Graph) (access : Leaf → Outcome String) (order : List (Nat × Nat))
    (x : Nat × Nat) (c : Call) : Prop :=
  ∃ n items, g.node? x.1 = some n ∧
    ItemsOf g access { firsts := order } (n.inputs.zip n.type.inputs) items ∧
    c = nodeCall n x.2 items

/-- Whether the producers of a node are among those listed before it. -/
def ProducersListed (g : Graph) (before : List (Nat × Nat)) (x : Nat × Nat) : Prop :=
  ∀ a, g.Feeds a x.1 → a ∈ before.map Prod.fst

/-- Whether the temporaries that a statement uses are declared before it. -/
def UsesDeclared (before : Body) (s : Statement) : Prop :=
  ∀ m ∈ s.uses, m ∈ declared before

section Operands

theorem ready_of_operand? {b : Binding} {o : Operand} (h : operand? g access e b = .ok (some o)) :
    e.Ready g access b := by
  cases b with
  | unbound => cases h
  | leaf l =>
    rw [operand?] at h
    cases hl : access l with
    | ok t => exact ⟨t, hl⟩
    | error f =>
      rw [hl] at h
      cases h
  | output ref =>
    rw [operand?] at h
    split at h
    · next m hm => exact Option.isSome_iff_exists.2 ⟨m, hm⟩
    · cases h

theorem ItemsOf.mono {inputs : List (Binding × Pin)} {items : List (Passed Unit)}
    (hfirsts : e.firsts <+: e'.firsts) (h : ItemsOf g access e inputs items) :
    ItemsOf g access e' inputs items := by
  refine List.Forall₂.imp (fun b i hi => ⟨hi.1, ?_⟩) h
  rw [Emission.operand?_mono hfirsts (ready_of_operand? hi.2), hi.2]

theorem CallOf.mono {x : Nat × Nat} {c : Call} (horder : order <+: order')
    (h : CallOf g access order x c) : CallOf g access order' x c := by
  obtain ⟨n, items, hn, hitems, hc⟩ := h
  exact ⟨n, items, hn, hitems.mono horder, hc⟩

end Operands

theorem lookup_isSome_iff : (order.lookup id).isSome ↔ id ∈ order.map Prod.fst := by
  induction order with
  | nil => simp
  | cons x rest ih =>
    rw [List.lookup_cons, List.map_cons, List.mem_cons]
    by_cases hid : id = x.1
    · simp [hid]
    · simp [beq_false_of_ne hid, hid, ih]

section Statements

variable (b : Body) (outputs : List (Pin × Nat)) (c : Call) (field : Field) (value : Operand)

theorem calls_call : calls (b ++ [.call c]) = calls b ++ [c] := by
  simp [calls, Statement.call?]

theorem calls_declare : calls (b ++ outputs.map fun o => .declare o.1.type o.2) = calls b := by
  simp [calls, Statement.call?, Function.comp_def]

theorem declarations_call : declarations (b ++ [.call c]) = declarations b := by
  simp [declarations, Statement.declaration?]

theorem declarations_declare :
    declarations (b ++ outputs.map fun o => .declare o.1.type o.2) =
      declarations b ++ outputs.map fun o => (o.1.type, o.2) := by
  simp [declarations, Statement.declaration?, Function.comp_def]

theorem fields_call : fields (b ++ [.call c]) = fields b := by
  simp [fields, Statement.field?]

theorem fields_declare : fields (b ++ outputs.map fun o => .declare o.1.type o.2) = fields b := by
  simp [fields, Statement.field?, Function.comp_def]

theorem calls_assign : calls (b ++ [.assign field value]) = calls b := by
  simp [calls, Statement.call?]

theorem declarations_assign : declarations (b ++ [.assign field value]) = declarations b := by
  simp [declarations, Statement.declaration?]

theorem fields_assign : fields (b ++ [.assign field value]) = fields b ++ [field] := by
  simp [fields, Statement.field?]

end Statements

/-- The nodes emitted so far, each after its producers, with their calls and declarations. -/
structure Emission.Ordered (p : PassGraph) (access : Leaf → Outcome String) (e : Emission) :
    Prop where
  once : (e.firsts.map Prod.fst).Nodup
  live : ∀ id ∈ e.firsts.map Prod.fst, p.Live id
  listed : Stepwise (ProducersListed p.graph) e.firsts
  calls : List.Forall₂ (CallOf p.graph access e.firsts) e.firsts (Body.calls e.statements)
  declarations : Body.declarations e.statements = e.firsts.flatMap (outputsOf p.graph)
  numbered : declared e.statements = List.range e.next
  used : Stepwise UsesDeclared e.statements

theorem outputsOf_of_node (hn : g.node? id = some n) (first : Nat) :
    outputsOf g (id, first) = (outputTemps n first).map fun o => (o.1.type, o.2) := by
  rw [outputsOf, hn]
  rfl

theorem mem_declared_of_outputsOf (h : declarations b = order.flatMap (outputsOf g))
    (hmem : (id, first) ∈ order) (hn : g.node? id = some n) {k : Nat}
    (hk : k < n.type.outputs.length) : first + k ∈ declared b := by
  have houtput : (n.type.outputs[k], first + k) ∈ outputTemps n first :=
    mem_outputTemps (List.getElem?_eq_getElem hk)
  rw [declared, h, List.map_flatMap, List.mem_flatMap]
  refine ⟨(id, first), hmem, ?_⟩
  rw [outputsOf_of_node hn, List.map_map]
  exact List.mem_map_of_mem houtput

/-- The temporary of an output is declared. -/
theorem mem_declared_of_temp? (h : declarations b = e.firsts.flatMap (outputsOf g))
    (hm : e.temp? g ref = some m) : m ∈ declared b := by
  obtain ⟨first, n, hfirst, hn, hlt, rfl⟩ := Emission.temp?_eq_some.1 hm
  obtain ⟨before, after, hfirsts, -⟩ := List.lookup_eq_some_iff.1 hfirst
  have hmem : (ref.node, first) ∈ e.firsts := hfirsts ▸ List.mem_append_right _ List.mem_cons_self
  exact mem_declared_of_outputsOf h hmem hn hlt

theorem Emission.Ordered.initial (p : PassGraph) (access : Leaf → Outcome String) :
    Emission.Ordered p access {} where
  once := List.nodup_nil
  live _ hid := absurd hid List.not_mem_nil
  listed := stepwise_nil
  calls := .nil
  declarations := rfl
  numbered := rfl
  used := stepwise_nil

/-- Assigning the temporary of an output keeps the order. -/
theorem assignsKeep_ordered (p : PassGraph) (access : Leaf → Outcome String) :
    AssignsKeep p (Emission.Ordered p access) := by
  intro e field value hvalue he
  have hused : UsesDeclared e.statements (.assign field value) := by
    intro m hm
    cases value with
    | text t => cases hm
    | temp k =>
      obtain ⟨ref, href⟩ := hvalue k rfl
      rw [List.mem_singleton.1 hm]
      exact mem_declared_of_temp? he.declarations href
  refine ⟨he.once, he.live, he.listed, ?_, ?_, ?_, stepwise_append_singleton.2 ⟨he.used, hused⟩⟩
  · rw [calls_assign]
    exact he.calls
  · rw [declarations_assign]
    exact he.declarations
  · rw [declared, declarations_assign]
    exact he.numbered

section Declare

variable (hn : g.node? id = some n)
include hn

theorem declarations_of_declare : declarations (e.declare id n).statements =
    declarations e.statements ++ outputsOf g (id, e.next) := by
  rw [outputsOf_of_node hn, Emission.declare, declarations_declare]

/-- The temporaries of a node are numbered from the next one on. -/
theorem declared_of_declare (h : declared e.statements = List.range e.next) :
    declared (e.declare id n).statements = List.range (e.declare id n).next := by
  have htemps : (outputsOf g (id, e.next)).map Prod.snd =
      List.range' e.next (outputTemps n e.next).length := by
    rw [outputsOf_of_node hn, List.map_map, outputTemps_length, ← outputTemps_snd]
    rfl
  rw [declared, declarations_of_declare hn, List.map_append, htemps]
  change declared e.statements ++ _ = List.range (e.next + _)
  rw [h, List.range_eq_range', List.range_eq_range', ← List.range'_append_1, Nat.zero_add]

/-- The calls before refer to a shorter list, and are still calls of their nodes. -/
theorem calls_of_declare {items : List (Passed Unit)}
    (hcalls : List.Forall₂ (CallOf g access e.firsts) e.firsts (calls e.statements))
    (hitems : ItemsOf g access (e.declare id n) (n.inputs.zip n.type.inputs) items) :
    List.Forall₂ (CallOf g access (e.declare id n).firsts) (e.declare id n).firsts
      (calls (e.declare id n).statements ++ [nodeCall n e.next items]) := by
  have hmono : List.Forall₂ (CallOf g access (e.declare id n).firsts) e.firsts
      (calls e.statements) :=
    hcalls.imp fun x c hc => hc.mono (List.prefix_append ..)
  have hlast : CallOf g access (e.declare id n).firsts (id, e.next) (nodeCall n e.next items) :=
    ⟨n, items, hn, hitems.mono (List.prefix_refl _), rfl⟩
  have hold : calls (e.declare id n).statements = calls e.statements := by
    rw [Emission.declare, calls_declare]
  rw [hold]
  exact List.rel_append hmono (.cons hlast .nil)

omit hn in
theorem stepwise_declare (h : Stepwise UsesDeclared e.statements) :
    Stepwise UsesDeclared (e.declare id n).statements := by
  refine (stepwise_append_of_forall fun before s hs => ?_).2 h
  obtain ⟨o, -, rfl⟩ := List.mem_map.1 hs
  exact fun m hm => absurd hm List.not_mem_nil

end Declare

section Call

variable (h : p.Sound)
include h

/-- The call of a node uses its own temporaries and those of its producers. -/
theorem usesDeclared_call (hn : p.graph.node? id = some n) {items : List (Passed Unit)}
    (hitems : ItemsOf p.graph access (e.declare id n) (n.inputs.zip n.type.inputs) items)
    (hdeclarations : declarations b = (e.declare id n).firsts.flatMap (outputsOf p.graph)) :
    UsesDeclared b (.call (nodeCall n e.next items)) := by
  intro m hm
  have hmem : (id, e.next) ∈ (e.declare id n).firsts :=
    List.mem_append_right _ List.mem_cons_self
  rcases List.mem_append.1 hm with hwrites | hreads
  · obtain ⟨k, hk, rfl⟩ := mem_writes_nodeCall.1 hwrites
    exact mem_declared_of_outputsOf hdeclarations hmem hn hk.lt_length
  · obtain ⟨ref, -, href⟩ :=
      (mem_reads_of_itemsOf (h.wellWired.inputs_length hn) hitems).1 hreads
    exact mem_declared_of_temp? hdeclarations href

/-- Calling a node after its producers keeps the order. -/
theorem callsKeep_ordered (access : Leaf → Outcome String) :
    CallsKeep p access (Emission.Ordered p access) := by
  intro e e' id n hlive hn hnew hfeeds he hcall
  obtain ⟨items, hitems, heq⟩ :=
    emitCall_eq_ok hcall fun b hb => ((zip_inputs h hlive hn).2 b hb).2
  have hfirsts := firsts_of_emitCall hcall
  have hstatements : e'.statements =
      (e.declare id n).statements ++ [.call (nodeCall n e.next items)] := by rw [heq]
  have hdeclarations : declarations (e.declare id n).statements =
      (e.declare id n).firsts.flatMap (outputsOf p.graph) := by
    rw [declarations_of_declare hn, he.declarations, Emission.declare, List.flatMap_append,
      List.flatMap_singleton]
  have hunlisted : id ∉ e.firsts.map Prod.fst := by
    rw [← lookup_isSome_iff, hnew]
    exact Bool.false_ne_true
  -- Only the node itself, its declarations and its call are new.
  refine ⟨?once, ?live, ?listed, ?calls, ?declarations, ?numbered, ?used⟩
  case once =>
    rw [hfirsts, List.map_append]
    exact List.nodup_append'.2 ⟨he.once, List.nodup_singleton _, by simpa using hunlisted⟩
  case live =>
    intro x hx
    rw [hfirsts, List.map_append, List.mem_append] at hx
    rcases hx with hx | hx
    · exact he.live x hx
    · rwa [List.mem_singleton.1 hx]
  case listed =>
    rw [hfirsts, stepwise_append_singleton]
    refine ⟨he.listed, fun a ha => ?_⟩
    obtain ⟨n', hn', ref, href, rfl⟩ := ha
    cases hn.symm.trans hn'
    have htemp := temp?_isSome_of_feeds h hlive hn hfeeds href
    exact lookup_isSome_iff.1 (Emission.lookup_isSome_of_temp? htemp)
  case calls =>
    rw [hstatements, calls_call, hfirsts]
    exact calls_of_declare hn he.calls hitems
  case declarations =>
    rw [hstatements, declarations_call, hdeclarations, hfirsts]
    rfl
  case numbered =>
    rw [declared, hstatements, declarations_call, ← declared, declared_of_declare hn he.numbered,
      heq]
  case used =>
    rw [hstatements, stepwise_append_singleton]
    exact ⟨stepwise_declare he.used, usesDeclared_call h hn hitems hdeclarations⟩

end Call

section Fields

theorem callsKeep_fields (p : PassGraph) (access : Leaf → Outcome String) (assigned : List Field) :
    CallsKeep p access fun e => fields e.statements = assigned := by
  intro e e' id n _ _ _ _ he hcall
  rw [emitCall_eq_bind] at hcall
  obtain ⟨arguments, -, heq⟩ := Except.bind_eq_ok_iff.1 hcall
  cases heq
  rw [fields_call, Emission.declare, fields_declare, he]

/-- Emitting an output assigns its field, if it is bound, and no other. -/
theorem fields_of_emitOutput {o : Output} {field : Field}
    (h : emitOutput p access o field e = .ok e') : fields e'.statements =
      fields e.statements ++ if p.output o = .unbound then [] else [field] := by
  rcases emitOutput_eq_ok (callsKeep_fields p access (fields e.statements)) rfl h with
    ⟨ho, rfl⟩ | ⟨l, t, ho, rfl⟩ | ⟨ref, fed, m, ho, hfed, -, rfl⟩
  · rw [ho, if_pos rfl, List.append_nil]
  · rw [ho, if_neg nofun, fields_assign]
  · rw [ho, if_neg nofun, fields_assign, hfed]

/-- The fields that a pass assigns: always the color, in three components beside an alpha. -/
def assignedFields (p : PassGraph) : List Field :=
  (if p.color ≠ .unbound ∧ p.alpha ≠ .unbound then .colorXyz else .color) ::
    ((if p.alpha = .unbound then [] else [.colorW]) ++
      if p.depth = .unbound then [] else [.depth])

theorem fields_of_ofPass (h : ofPass p access = .ok b) : fields b = assignedFields p := by
  obtain ⟨e₁, e₂, e₃, hcolor, halpha, hdepth, rfl⟩ := exists_emissions h
  have hfirst : fields e₁.statements =
      [if p.color ≠ .unbound ∧ p.alpha ≠ .unbound then .colorXyz else .color] := by
    by_cases hunbound : p.color = .unbound
    · rw [if_pos hunbound] at hcolor
      cases hcolor
      rw [if_neg fun hboth => hboth.1 hunbound]
      rfl
    · rw [if_neg hunbound] at hcolor
      have hbound : p.output .color ≠ .unbound := hunbound
      rw [fields_of_emitOutput hcolor, if_neg hbound]
      by_cases hnone : p.alpha = .unbound
      · rw [if_pos hnone, if_neg fun hboth => hboth.2 hnone]
        rfl
      · rw [if_neg hnone, if_pos ⟨hunbound, hnone⟩]
        rfl
  rw [fields_of_emitOutput hdepth, fields_of_emitOutput halpha, hfirst, List.append_assoc]
  rfl

end Fields

/-- A body in single-assignment order. The list has the nodes in the order of their calls,
each with the temporary of its first output. -/
theorem single_assignment (p : PassGraph) (access : Leaf → Outcome String)
    (hbuilt : p.graph.Built) (h : ofPass p access = .ok b) :
    ∃ order : List (Nat × Nat),
      (order.map Prod.fst).Nodup ∧ (∀ id, id ∈ order.map Prod.fst ↔ p.Live id) ∧
      List.Forall₂ (CallOf p.graph access order) order (calls b) ∧
      declarations b = order.flatMap (outputsOf p.graph) ∧
      declared b = List.range (declared b).length ∧ ((declared b).map tempName).Nodup ∧
      Stepwise (ProducersListed p.graph) order ∧ Stepwise UsesDeclared b ∧
      fields b = assignedFields p := by
  have hsound := sound_of_ofPass hbuilt.wellWired h
  have hfields := fields_of_ofPass h
  obtain ⟨e, he, rfl, htemps⟩ := ofPass_keeps (callsKeep_ordered hsound access)
    (assignsKeep_ordered p access) (.initial p access) h
  have hnumbered : declared e.statements = List.range (declared e.statements).length := by
    rw [he.numbered, List.length_range]
  have hnames : ((declared e.statements).map tempName).Nodup := by
    rw [he.numbered]
    exact List.nodup_range.map fun m n => tempName_injective
  have hlisted : ∀ id, p.Live id → id ∈ e.firsts.map Prod.fst := by
    intro id hlive
    refine hlive.mem_of_closed (S := (· ∈ e.firsts.map Prod.fst)) (fun o ref ho => ?_)
      fun a b hab hb => ?_
    · exact lookup_isSome_iff.1 (Emission.lookup_isSome_of_temp? (htemps o ref ho))
    · obtain ⟨x, hx, rfl⟩ := List.mem_map.1 hb
      obtain ⟨i, hi, rfl⟩ := List.mem_iff_getElem.1 hx
      exact List.map_subset Prod.fst (List.take_subset i _) (he.listed i hi a hab)
  exact ⟨e.firsts, he.once, fun id => ⟨he.live id, hlisted id⟩, he.calls, he.declarations,
    hnumbered, hnames, he.listed, he.used, hfields⟩

theorem splitMix_live : splitMix.Live id ↔ id ∈ [0, 1] := by
  have hcolor : splitMix.output .color = .output ⟨1, 0⟩ := rfl
  have halpha : splitMix.output .alpha = .output ⟨0, 1⟩ := rfl
  constructor
  · intro hlive
    have hlt : id < 2 :=
      PassGraph.Live.lt ⟨splitMix_built.wellWired, splitMix_emittable.outputs⟩ hlive
    exact List.mem_range.2 hlt
  · intro hid
    obtain rfl | rfl : id = 0 ∨ id = 1 := by simpa using hid
    · exact PassGraph.live_of_output halpha
    · exact PassGraph.live_of_output hcolor

theorem length_outputsOf (g : Graph) (x : Nat × Nat) :
    (outputsOf g x).length = (g.node? x.1).elim 0 fun n => n.type.outputs.length := by
  rw [outputsOf]
  cases g.node? x.1 with
  | none => rfl
  | some n => rw [Option.elim_some, List.length_map, outputTemps_length, Option.elim_some]

/-- The split feeds the mix twice and the alpha once, and is called once. -/
theorem single_assignment_splitMix :
    splitMix.graph.Built ∧ ∃ b, ofPass splitMix noAccessors.text = .ok b ∧
      (calls b).length = 2 ∧ declared b = [0, 1, 2] ∧
      fields b = [.colorXyz, .colorW, .depth] := by
  have hemittable := splitMix_emittable
  have hsound : splitMix.Sound := ⟨⟨splitMix_built.wellWired, hemittable.outputs⟩,
    hemittable.acyclic, hemittable.bound⟩
  rcases ofPass_cases hsound noAccessors.text with ⟨b, hb, -⟩ | ⟨l, f, hl, hf, -⟩
  · obtain ⟨order, honce, hlive, hcalls, hdeclarations, hnumbered, -, -, -, hfields⟩ :=
      single_assignment splitMix noAccessors.text splitMix_built hb
    have hperm : (order.map Prod.fst).Perm [0, 1] :=
      (List.perm_ext_iff_of_nodup honce (by decide)).2 fun id => (hlive id).trans splitMix_live
    have hlength : (declared b).length = 3 := by
      rw [declared, List.length_map, hdeclarations, List.length_flatMap]
      simp only [length_outputsOf]
      have hsum := (hperm.map fun id =>
        (splitMix.graph.node? id).elim 0 fun n => n.type.outputs.length).sum_eq
      rwa [List.map_map] at hsum
    refine ⟨splitMix_built, b, hb, ?_, ?_, hfields⟩
    · rw [← hcalls.length_eq, ← List.length_map (f := Prod.fst), hperm.length_eq]
      rfl
    · rw [hnumbered, hlength]
      rfl
  · obtain ⟨t, ht⟩ := hemittable.texts l hl
    cases ht.symm.trans hf

end Body

end MaterialGraph
