import MaterialGraph.Proofs.Failure
import MaterialGraph.Proofs.PassGraph.Wiring

/-!
The walk that wires the nodes a binding refers to. It keeps a wiring sound and
wires nothing else; a failure points out a node that cannot be wired, and one
about a cycle names a node that lies on one.
-/

namespace MaterialGraph

open Relation (TransGen ReflTransGen)
open Document (WrittenBinding WrittenNode)
open Document.Skeleton (IsNode)

namespace Document

variable {d : Document} {types : String → Outcome NodeType} {name : String}

/-- A failure that a node that `name` refers to is to blame for, directly or
through others; a failure about a cycle names a node on it. -/
structure Blames (d : Document) (types : String → Outcome NodeType) (f : Failure)
    (name : String) : Prop where
  flaw : ∃ x, ReflTransGen d.Refers x name ∧ ¬d.Wireable types x
  cycle : ∀ node, f.cause = .compile (.recursiveNode node) →
    ReflTransGen d.Refers node name ∧ TransGen d.Refers node node

theorem Blames.of_refers {f : Failure} {x y : String} (h : d.Blames types f x)
    (hxy : d.Refers x y) : d.Blames types f y where
  flaw := by
    obtain ⟨z, hzx, hz⟩ := h.flaw
    exact ⟨z, hzx.tail hxy, hz⟩
  cycle node hf := ⟨(h.cycle node hf).1.tail hxy, (h.cycle node hf).2⟩

/-- A failure other than about a cycle, for a node that cannot be wired. -/
theorem Blames.of_flaw {f : Failure} (h : ¬d.Wireable types name)
    (hf : ∀ node, f.cause ≠ .compile (.recursiveNode node)) : d.Blames types f name where
  flaw := ⟨name, .refl, h⟩
  cycle node hcause := absurd hcause (hf node)

/-- A failure that a written binding is to blame for, or a node it refers to. -/
def BlamesBinding (d : Document) (types : String → Outcome NodeType) (f : Failure)
    (b : WrittenBinding) : Prop :=
  ((∀ target, ¬d.Stands types b target) ∧ ∀ node, f.cause ≠ .compile (.recursiveNode node)) ∨
    ∃ name, b.RefersTo name ∧ d.Blames types f name

end Document

namespace PassGraph

variable {d : Document} {types : String → Outcome NodeType} {w w' : Wiring} {id : Nat}
  {available : List Nat}

/-- The result of wiring what a binding refers to. -/
def BindingWired (d : Document) (types : String → Outcome NodeType) (available : List Nat)
    (b : WrittenBinding) (w : Wiring) : Outcome (Binding × Wiring) → Prop
  | .ok (target, w') => w'.Sound d types ∧
      w.Extends d available (fun x => ∃ name, b.RefersTo name ∧ ReflTransGen d.Refers x name)
        (fun _ => False) w' ∧
      d.Stands types b target ∧ ∀ ref, target = .output ref → ref.node ∈ w'.wired
  | .error f => d.BlamesBinding types f b

def NodeWired (d : Document) (types : String → Outcome NodeType) (available : List Nat)
    (id : Nat) (w : Wiring) : Outcome Wiring → Prop
  | .ok w' => w'.Sound d types ∧
      w.Extends d available (fun x => ReflTransGen d.Refers x (d.nameAt id)) (fun _ => False) w' ∧
      id ∈ w'.wired
  | .error f => d.Blames types f (d.nameAt id)

/-- The result of wiring some inputs of a node, which may not be wired itself meanwhile. -/
def InputsWired (d : Document) (types : String → Outcome NodeType) (available : List Nat)
    (id : Nat) (written : Table WrittenBinding) (pins : List (Pin × Nat)) (w : Wiring) :
    Outcome Wiring → Prop
  | .ok w' => w'.Sound d types ∧
      w.Extends d available (fun x => ∃ name, d.Refers name (d.nameAt id) ∧
        ReflTransGen d.Refers x name) (· = id) w' ∧
      (∀ k ∉ pins.map Prod.snd, w'.graph.binding? ⟨id, k⟩ = w.graph.binding? ⟨id, k⟩) ∧
      ∀ p ∈ pins, ∃ b target, written.get? p.1.name = some b ∧
        w'.graph.binding? ⟨id, p.2⟩ = some target ∧ d.Stands types b target ∧
        ∀ ref, target = .output ref → ref.node ∈ w'.wired
  | .error f => d.Blames types f (d.nameAt id)

def WiresBinding (d : Document) (types : String → Outcome NodeType) (available : List Nat)
    (site : String) (b : WrittenBinding) (w : Wiring) : Prop :=
  w.Sound d types → available.Nodup →
    (∀ a, b.RefersTo (d.nameAt a) → OnWay d.FeedsAt d.nodes.size available a) →
    BindingWired d types available b w (wireBinding d.nodes.values available site b w)

def WiresNode (d : Document) (types : String → Outcome NodeType) (available : List Nat)
    (id : Nat) (w : Wiring) : Prop :=
  w.Sound d types → available.Nodup → id < d.nodes.size →
    OnWay d.FeedsAt d.nodes.size available id →
    NodeWired d types available id w (wireNode d.nodes.values available id w)

def WiresInputs (d : Document) (types : String → Outcome NodeType) (available : List Nat)
    (id : Nat) (n : Node) (written : Table WrittenBinding) (pins : List (Pin × Nat))
    (w : Wiring) : Prop :=
  ∀ e, IsNode d types id n e → e.inputs = written → w.Sound d types → available.Nodup →
    id ∉ available → id ∉ w.wired →
    (∀ a, d.FeedsAt a id → OnWay d.FeedsAt d.nodes.size available a) →
    (∀ p ∈ pins, n.type.inputs[p.2]? = some p.1) → (pins.map Prod.snd).Nodup →
    InputsWired d types available id written pins w
      (wireInputs d.nodes.values available id n written pins w)

section Binding

variable {site : String} {b : WrittenBinding}

theorem classify_eq_ok {t : Document.Target} (h : classify site b = .ok t) :
    b.classify = .ok t :=
  Except.mapError_eq_ok_iff.1 h

theorem classify_eq_error {f : Failure} (h : classify site b = .error f) :
    ∃ fault, b.classify = .error fault ∧ f = .compile (.malformedBinding site fault) := by
  obtain ⟨fault, hb, rfl⟩ := Except.mapError_eq_error_iff.1 h
  exact ⟨fault, hb, rfl⟩

theorem wiresBinding_unclassified {f : Failure} (h : classify site b = .error f) :
    WiresBinding d types available site b w := by
  intro _ _ _
  rw [wireBinding, h]
  obtain ⟨fault, hb, rfl⟩ := classify_eq_error h
  refine .inl ⟨fun target htarget => ?_, fun node => nofun⟩
  cases htarget with
  | leaf hl => cases hb.symm.trans hl
  | output hb' => cases hb.symm.trans hb'

theorem wiresBinding_leaf {l : Leaf} (h : classify site b = .ok (.leaf l)) :
    WiresBinding d types available site b w := by
  intro hw _ _
  rw [wireBinding, h]
  exact ⟨hw, .refl .., .leaf (classify_eq_ok h), nofun⟩

theorem wiresBinding_unnamed {name output : String} {e : CompileError}
    (h : classify site b = .ok (.node name output))
    (hnamed : namedOutput w.graph site name output = .error e) :
    WiresBinding d types available site b w := by
  intro hw _ _
  rw [wireBinding, h]
  simp only [hnamed]
  obtain ⟨hstands, he⟩ := hw.skeleton.namedOutput_eq_error (classify_eq_ok h) hnamed
  exact .inl ⟨hstands, fun node hcause => he node (Cause.compile.inj hcause)⟩

theorem wiresBinding_node {name output : String} {ref : OutputRef}
    (h : classify site b = .ok (.node name output))
    (hnamed : namedOutput w.graph site name output = .ok ref)
    (hnode : WiresNode d types available ref.node w) :
    WiresBinding d types available site b w := by
  intro hw havailable hway
  have hb : b.RefersTo name := ⟨output, classify_eq_ok h⟩
  have hstands := hw.skeleton.namedOutput_eq_ok (classify_eq_ok h) hnamed
  obtain ⟨ref', n, heq, hentry⟩ := hstands.output_of_refersTo hb
  cases heq
  have hname : d.nameAt ref.node = name := Document.nameAt_eq hentry
  have hlt : ref.node < d.nodes.size := (List.getElem?_eq_some_iff.1 hentry).1
  have hresult := hnode hw havailable hlt (hway ref.node (hname ▸ hb))
  rw [wireBinding, h]
  simp only [hnamed]
  cases hwire : wireNode d.nodes.values available ref.node w with
  | error f =>
    rw [hwire] at hresult
    exact .inr ⟨name, hb, hname ▸ hresult⟩
  | ok w' =>
    rw [hwire] at hresult
    obtain ⟨hw', hextends, hwired⟩ := hresult
    refine ⟨hw', hextends.weaken (fun _ => id) fun x hx => ⟨name, hb, hname ▸ hx⟩, hstands, ?_⟩
    rintro _ ⟨⟩
    exact hwired

end Binding

section Inputs

variable {n : Node} {written : Table WrittenBinding} {pin : Pin} {k : Nat}
  {rest : List (Pin × Nat)} {b : WrittenBinding}

theorem wiresInputs_nil : WiresInputs d types available id n written [] w := by
  intro _ _ _ hw _ _ _ _ _ _
  rw [wireInputs]
  exact ⟨hw, .refl .., fun _ _ => rfl, fun p hp => absurd hp List.not_mem_nil⟩

/-- What an input of a node is written to be bound to may be wired before the node is. -/
theorem WiresBinding.of_isNode {site : String} (h : WiresBinding d types available site b w)
    {e : WrittenNode} (hnode : IsNode d types id n e) (hb : e.inputs.get? pin.name = some b)
    (hw : w.Sound d types) (havailable : available.Nodup)
    (hway : ∀ a, d.FeedsAt a id → OnWay d.FeedsAt d.nodes.size available a) :
    BindingWired d types available b w (wireBinding d.nodes.values available site b w) :=
  h hw havailable fun a ha => hway a (refers_of_isNode hnode hb ha)

theorem wiresInputs_missing (h : written.get? pin.name = none) :
    WiresInputs d types available id n written ((pin, k) :: rest) w := by
  rintro e hnode rfl _ _ _ _ _ hpins _
  rw [wireInputs, h]
  refine Document.Blames.of_flaw (fun hwireable => ?_) fun node hcause => (by cases hcause)
  have hpin : pin ∈ n.type.inputs := List.mem_of_getElem? (hpins (pin, k) List.mem_cons_self)
  have hkey := (hwireable.keys e n.type (get?_of_isNode hnode) hnode.type pin.name).2
    (List.mem_map_of_mem hpin)
  rw [Table.contains, h] at hkey
  cases hkey

theorem wiresInputs_binding_error {f : Failure} (hb : written.get? pin.name = some b)
    (hwire : wireBinding d.nodes.values available (n.name ++ "." ++ pin.name) b w = .error f)
    (hbinding : WiresBinding d types available (n.name ++ "." ++ pin.name) b w) :
    WiresInputs d types available id n written ((pin, k) :: rest) w := by
  rintro e hnode rfl hw havailable _ _ hway _ _
  have hresult := hbinding.of_isNode hnode hb hw havailable hway
  rw [hwire] at hresult
  rw [wireInputs, hb]
  simp only [hwire]
  rcases hresult with ⟨hstands, hcause⟩ | ⟨name, hname, hblames⟩
  · refine Document.Blames.of_flaw (fun hwireable => ?_) hcause
    obtain ⟨target, htarget⟩ := hwireable.stands e (get?_of_isNode hnode) (pin.name, b)
      (Table.get?_eq_some_iff.1 hb)
    exact hstands target htarget
  · exact hblames.of_refers (refers_of_isNode hnode hb hname)

theorem wiresInputs_bind_error {f : Failure} {target : Binding}
    (hb : written.get? pin.name = some b)
    (hwire : wireBinding d.nodes.values available (n.name ++ "." ++ pin.name) b w =
      .ok (target, w'))
    (hbind : bind w'.graph ⟨id, k⟩ target = .error f)
    (hbinding : WiresBinding d types available (n.name ++ "." ++ pin.name) b w) :
    WiresInputs d types available id n written ((pin, k) :: rest) w := by
  rintro e hnode rfl hw havailable _ _ hway hpins _
  have hresult := hbinding.of_isNode hnode hb hw havailable hway
  rw [hwire] at hresult
  obtain ⟨hw', -, htarget, -⟩ := hresult
  obtain ⟨g, hg, -⟩ := bind_of_stands hw' hnode (hpins (pin, k) List.mem_cons_self) htarget
  cases hg.symm.trans hbind

theorem wiresInputs_cons {g : Graph} {target : Binding} (hb : written.get? pin.name = some b)
    (hwire : wireBinding d.nodes.values available (n.name ++ "." ++ pin.name) b w =
      .ok (target, w'))
    (hbind : bind w'.graph ⟨id, k⟩ target = .ok g)
    (hbinding : WiresBinding d types available (n.name ++ "." ++ pin.name) b w)
    (hrest : WiresInputs d types available id n written rest ⟨g, w'.wired⟩) :
    WiresInputs d types available id n written ((pin, k) :: rest) w := by
  rintro e hnode rfl hw havailable hid hunwired hway hpins hnodup
  have hresult := hbinding.of_isNode hnode hb hw havailable hway
  rw [hwire] at hresult
  obtain ⟨hw', hextends, htarget, hwired⟩ := hresult
  have hunwired' : id ∉ w'.wired := fun hmem =>
    (hextends.fresh id hmem).elim hunwired fun hmem => hid hmem.1
  obtain ⟨g', hg', ho, hbinding?⟩ :=
    bind_of_stands hw' hnode (hpins (pin, k) List.mem_cons_self) htarget
  obtain rfl : g' = g := Except.ok.inj (hg'.symm.trans hbind)
  obtain ⟨hk, hnodup'⟩ := List.nodup_cons.1 hnodup
  obtain ⟨hw₂, hextends₂⟩ := hw'.rebind hunwired' ho
    (fun j hj => by rw [hbinding?, if_neg fun heq => hj (congrArg InputRef.node heq)])
    (fun x => ∃ name, d.Refers name (d.nameAt id) ∧ ReflTransGen d.Refers x name)
  have hextends' : w.Extends d available (fun x => ∃ name, d.Refers name (d.nameAt id) ∧
      ReflTransGen d.Refers x name) (· = id) w' :=
    hextends.weaken (fun _ hx => hx) fun x ⟨name, hname, hx⟩ =>
      ⟨name, refers_of_isNode hnode hb hname, hx⟩
  have hresult := hrest e hnode rfl hw₂ havailable hid hunwired' hway
    (fun p hp => hpins p (List.mem_cons_of_mem _ hp)) hnodup'
  rw [wireInputs, hb]
  simp only [hwire, hbind]
  cases hinputs : wireInputs d.nodes.values available id n e.inputs rest ⟨g', w'.wired⟩ with
  | error f =>
    rw [hinputs] at hresult
    exact hresult
  | ok w₃ =>
    rw [hinputs] at hresult
    obtain ⟨hw₃, hextends₃, hframe, hbound⟩ := hresult
    refine ⟨hw₃, (hextends'.trans hextends₂).trans hextends₃, fun j hj => ?_, fun p hp => ?_⟩
    · rw [List.map_cons, List.mem_cons, not_or] at hj
      rw [hframe j hj.2, hbinding?, if_neg fun heq => hj.1 (congrArg InputRef.input heq)]
      exact hextends.frame id (fun h => h) (.inr hunwired') j
    · rcases List.mem_cons.1 hp with rfl | hp
      · refine ⟨b, target, hb, ?_, htarget, fun ref href => hextends₃.mono _ (hwired ref href)⟩
        rw [hframe k hk, hbinding?, if_pos rfl]
      · exact hbound p hp

end Inputs

section Node

variable {n : Node} {written : WrittenNode}

theorem wiresNode_wired (h : w.wired.contains id) : WiresNode d types available id w := by
  intro hw _ _ _
  rw [wireNode, if_pos h]
  exact ⟨hw, .refl .., List.contains_iff_mem.1 h⟩

theorem findInput?_isNone_iff {t : NodeType} {key : String} :
    (t.findInput? key).isNone ↔ key ∉ t.inputs.map Pin.name := by
  simp [NodeType.findInput?]

theorem wiresNode_unknown (hunwired : ¬w.wired.contains id) (hn : w.graph.node? id = some n)
    (hwritten : d.nodes.values[id]? = some written) (hid : id ∈ available) {key : String}
    (hkey : (written.inputs.names.find? fun k => (n.type.findInput? k).isNone) = some key) :
    WiresNode d types available id w := by
  intro hw _ _ _
  have hnode := isNode_of_values hw hn hwritten
  rw [wireNode, if_neg hunwired]
  simp only [hn, hwritten, hid, dite_true, hkey]
  refine Document.Blames.of_flaw (fun hwireable => ?_) fun node hcause => (by cases hcause)
  have hwritten' := Table.mem_names_iff.1 (List.mem_of_find?_eq_some hkey)
  have hmem := (hwireable.keys written n.type (get?_of_isNode hnode) hnode.type key).1 hwritten'
  exact findInput?_isNone_iff.1 (by simpa using List.find?_some hkey) hmem

theorem wiresNode_inputs (hunwired : ¬w.wired.contains id) (hn : w.graph.node? id = some n)
    (hwritten : d.nodes.values[id]? = some written) (hid : id ∈ available)
    (hknown : (written.inputs.names.find? fun k => (n.type.findInput? k).isNone) = none)
    (hinputs : WiresInputs d types (available.erase id) id n written.inputs
      n.type.inputs.zipIdx w) : WiresNode d types available id w := by
  intro hw havailable hlt hway
  have hnode := isNode_of_values hw hn hwritten
  rw [wireNode, if_neg hunwired]
  simp only [hn, hwritten, hid, dite_true, hknown]
  have hunwired' : id ∉ w.wired := fun hmem => hunwired (List.contains_iff_mem.2 hmem)
  have herase : id ∉ available.erase id := havailable.not_mem_erase
  have hpins : ∀ p ∈ n.type.inputs.zipIdx, n.type.inputs[p.2]? = some p.1 := fun p hp =>
    List.mem_zipIdx_iff_getElem?.1 hp
  have hresult := hinputs written hnode rfl hw (havailable.erase id) herase hunwired'
    (fun a ha => hway.step ha) hpins (by rw [List.zipIdx_map_snd]; exact List.nodup_range')
  cases hwire : wireInputs d.nodes.values (available.erase id) id n written.inputs
      n.type.inputs.zipIdx w with
  | error f =>
    rw [hwire] at hresult
    exact hresult
  | ok w' =>
    rw [hwire] at hresult
    obtain ⟨hw', hextends, -, hbound⟩ := hresult
    have hunwired'' : id ∉ w'.wired := fun hmem =>
      (hextends.fresh id hmem).elim hunwired' fun hmem => herase hmem.1
    have hcomplete : InputsComplete d types w' id n written := by
      refine ⟨hnode, fun key hkey => ?_, fun k pin hpin => ?_⟩
      · by_contra hnot
        have hnone := List.find?_eq_none.1 hknown key (Table.mem_names_iff.2 hkey)
        exact hnone (findInput?_isNone_iff.2 hnot)
      · exact hbound (pin, k) (List.mem_zipIdx_iff_getElem?.2 hpin)
    refine ⟨hw'.cons hlt hunwired'' hcomplete, ⟨fun x hx => ?_, fun x hx => ?_, fun x _ hx k => ?_⟩,
      List.mem_cons_self⟩
    · exact List.mem_cons_of_mem _ (hextends.mono x hx)
    · rcases List.mem_cons.1 hx with rfl | hx
      · exact .inr ⟨hid, .refl⟩
      · refine (hextends.fresh x hx).imp_right fun ⟨hx, name, hname, hpath⟩ => ?_
        exact ⟨List.mem_of_mem_erase hx, hpath.tail hname⟩
    · have hne : x ≠ id := by
        rintro rfl
        exact hx.elim hunwired' fun hnot => hnot List.mem_cons_self
      exact hextends.frame x hne (hx.imp_right fun hnot hx' => hnot (List.mem_cons_of_mem _ hx')) k

theorem wiresNode_cycle (hunwired : ¬w.wired.contains id) (hn : w.graph.node? id = some n)
    (hwritten : d.nodes.values[id]? = some written) (hid : id ∉ available) :
    WiresNode d types available id w := by
  intro hw _ hlt hway
  have hnode := isNode_of_values hw hn hwritten
  rw [wireNode, if_neg hunwired]
  simp only [hn, hwritten, hid, dite_false]
  have hcycle := Document.transGen_of_feedsAt (hway id hlt hid)
  refine ⟨⟨_, .refl, fun hwireable => hwireable.acyclic hcycle⟩, fun node hcause => ?_⟩
  obtain rfl := CompileError.recursiveNode.inj (Cause.compile.inj hcause)
  rw [Document.nameAt_eq hnode.entry] at hcycle ⊢
  exact ⟨.refl, hcycle⟩

theorem wiresNode_absent (h : ∀ n written, w.graph.node? id = some n →
    d.nodes.values[id]? = some written → False) : WiresNode d types available id w := by
  intro hw _ hlt _
  obtain ⟨written, hentry⟩ := Document.entry_of_lt hlt
  obtain ⟨n, hn, -, -⟩ := hw.skeleton.node hentry
  refine (h n written hn ?_).elim
  rw [Table.values, List.getElem?_map, hentry, Option.map_some]

end Node

/-- Wiring what a binding refers to, by induction along the recursion of the walk. -/
theorem wiresBinding (d : Document) (types : String → Outcome NodeType) (available : List Nat)
    (site : String) (b : WrittenBinding) (w : Wiring) :
    WiresBinding d types available site b w := by
  refine (wireBinding.mutual_induct d.nodes.values (WiresBinding d types) (WiresNode d types)
    (WiresInputs d types) ?unclassified ?leaf ?unnamed ?node ?wired ?unknown ?inputs ?cycle ?absent
    ?nil ?missing ?bindingError ?bindError ?cons).1 available site b w
  case unclassified => exact fun available site b w f => wiresBinding_unclassified
  case leaf => exact fun available site b w l => wiresBinding_leaf
  case unnamed => exact fun available site b w name output h e => wiresBinding_unnamed h
  case node => exact fun available site b w name output h ref => wiresBinding_node h
  case wired => exact fun available id w => wiresNode_wired
  case unknown =>
    exact fun available id w h n written hwritten hn hid _ key =>
      wiresNode_unknown h hn hwritten hid
  case inputs =>
    exact fun available id w h n written hwritten hn hid _ => wiresNode_inputs h hn hwritten hid
  case cycle =>
    exact fun available id w h n written hwritten hn => wiresNode_cycle h hn hwritten
  case absent => exact fun available id w _ => wiresNode_absent
  case nil => exact fun available id n written w => wiresInputs_nil
  case missing => exact fun available id n written w pin k rest => wiresInputs_missing
  case bindingError =>
    exact fun available id n written w pin k rest b hb f => wiresInputs_binding_error hb
  case bindError =>
    exact fun available id n written w pin k rest b hb target w' hwire f =>
      wiresInputs_bind_error hb hwire
  case cons =>
    exact fun available id n written w pin k rest b hb target w' hwire g =>
      wiresInputs_cons hb hwire

end PassGraph

end MaterialGraph
