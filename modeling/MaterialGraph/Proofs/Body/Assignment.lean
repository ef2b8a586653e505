import MaterialGraph.Json.Printer
import MaterialGraph.Proofs.Body.Accessor
import MaterialGraph.Proofs.Body.Passing

/-!
Temporaries that are written before they are read. Main statement: a body writes every
temporary before it reads it exactly if every output that the pass passes on is the last
one of its node's type with its register.
-/

namespace MaterialGraph

def Statement.reads : Statement → List Nat
  | .declare .. => []
  | .call c => c.reads
  | .assign _ value => value.temp?.toList

def Statement.writes : Statement → List Nat
  | .call c => c.writes
  | .declare .. | .assign .. => []

def Graph.Delivers (g : Graph) (ref : OutputRef) : Prop :=
  ∃ n, g.node? ref.node = some n ∧ n.type.Delivers ref.output

/-- Whether a pass takes a value from an output, for itself or for a node it depends on. -/
def PassGraph.Passes (p : PassGraph) (ref : OutputRef) : Prop :=
  (∃ o, p.output o = .output ref) ∨
    ∃ id n, p.Live id ∧ p.graph.node? id = some n ∧ n.Passes ref

namespace Body

variable {p : PassGraph} {access : Leaf → Outcome String} {e e' : Emission} {ref : OutputRef}
  {R R' : OutputRef → Prop}

def writes (b : Body) : List Nat :=
  b.flatMap Statement.writes

section Stepwise

variable {α : Type*} {R : List α → α → Prop} {l l' : List α}

/-- Whether each entry of a list stands in a relation to those before it. -/
def Stepwise (R : List α → α → Prop) (l : List α) : Prop :=
  ∀ i (h : i < l.length), R (l.take i) l[i]

theorem stepwise_nil : Stepwise R [] :=
  fun i h => absurd h (Nat.not_lt_zero i)

theorem stepwise_append_singleton {x : α} : Stepwise R (l ++ [x]) ↔ Stepwise R l ∧ R l x := by
  constructor
  · intro h
    refine ⟨fun i hi => ?_, ?_⟩
    · have hlt : i < (l ++ [x]).length := by
        rw [List.length_append]
        omega
      have hstep := h i hlt
      rwa [List.getElem_append_left hi, List.take_append_of_le_length (Nat.le_of_lt hi)] at hstep
    · have hstep := h l.length (by simp)
      rwa [List.take_left, List.getElem_concat_length rfl] at hstep
  · rintro ⟨hl, hx⟩ i hi
    rw [List.length_append, List.length_singleton] at hi
    rcases Nat.lt_or_eq_of_le (Nat.le_of_lt_succ hi) with hlt | rfl
    · rw [List.getElem_append_left hlt, List.take_append_of_le_length (Nat.le_of_lt hlt)]
      exact hl i hlt
    · rwa [List.take_left, List.getElem_concat_length rfl]

/-- Entries that stand in the relation to any list may follow. -/
theorem stepwise_append_of_forall (h : ∀ before, ∀ x ∈ l', R before x) :
    Stepwise R (l ++ l') ↔ Stepwise R l := by
  induction l' generalizing l with
  | nil => rw [List.append_nil]
  | cons x rest ih =>
    have hrest : ∀ before, ∀ y ∈ rest, R before y :=
      fun before y hy => h before y (List.mem_cons_of_mem _ hy)
    rw [List.append_cons, ih hrest, stepwise_append_singleton]
    exact and_iff_left (h l x List.mem_cons_self)

end Stepwise

/-- Whether each temporary is written by a statement before any that reads it. -/
def DefinitelyAssigned (b : Body) : Prop :=
  ∀ i (h : i < b.length), ∀ m ∈ (b[i]).reads, m ∈ writes (b.take i)

instance (b : Body) : Decidable (DefinitelyAssigned b) :=
  inferInstanceAs (Decidable (∀ i (_ : i < b.length), _))

theorem writes_append (a b : Body) : writes (a ++ b) = writes a ++ writes b :=
  List.flatMap_append

theorem definitelyAssigned_append_singleton {b : Body} {s : Statement} :
    DefinitelyAssigned (b ++ [s]) ↔ DefinitelyAssigned b ∧ ∀ m ∈ s.reads, m ∈ writes b :=
  stepwise_append_singleton (R := fun (before : Body) (s : Statement) => ∀ m ∈ s.reads, m ∈ writes before)

section Declarations

variable {α : Type*} {type : α → BasicType} {temp : α → Nat}

theorem writes_declarations (declared : List α) :
    writes (declared.map fun d => .declare (type d) (temp d)) = [] := by
  rw [writes, List.flatMap_map, List.flatMap_eq_nil_iff]
  exact fun _ _ => rfl

theorem definitelyAssigned_declarations (b : Body) (declared : List α) :
    DefinitelyAssigned (b ++ declared.map fun d => .declare (type d) (temp d)) ↔
      DefinitelyAssigned b := by
  refine stepwise_append_of_forall
    (R := fun (before : Body) (s : Statement) => ∀ m ∈ s.reads, m ∈ writes before)
    fun before s hs => ?_
  obtain ⟨d, -, rfl⟩ := List.mem_map.1 hs
  exact fun m hm => absurd hm List.not_mem_nil

end Declarations

namespace Emission

/-- The outputs that statements take values from: some that are assigned to the result and
those that the emitted nodes pass on. -/
def Reads (p : PassGraph) (R : OutputRef → Prop) (e : Emission) (ref : OutputRef) : Prop :=
  R ref ∨ ∃ id n, (e.firsts.lookup id).isSome ∧ p.graph.node? id = some n ∧ n.Passes ref

/-- What is known of an emission where some outputs are assigned to the result: the nodes
that were emitted, whose temporaries are written, and whether the statements read others. -/
structure Charted (p : PassGraph) (R : OutputRef → Prop) (e : Emission) : Prop where
  live : ∀ id, (e.firsts.lookup id).isSome → p.Live id
  fed : ∀ id n, (e.firsts.lookup id).isSome → p.graph.node? id = some n →
    ∀ ref, .output ref ∈ n.inputs → (e.temp? p.graph ref).isSome
  outputs : ∀ ref, R ref → (e.temp? p.graph ref).isSome
  lt_next : ∀ ref m, e.temp? p.graph ref = some m → m < e.next
  injective : ∀ ref ref' m, e.temp? p.graph ref = some m → e.temp? p.graph ref' = some m →
    ref = ref'
  mem_writes : ∀ m, m ∈ writes e.statements ↔
    ∃ ref, e.temp? p.graph ref = some m ∧ p.graph.Delivers ref
  assigned : DefinitelyAssigned e.statements ↔ ∀ ref, e.Reads p R ref → p.graph.Delivers ref

namespace Charted

/-- The temporary of an output is written exactly if the output is delivered. -/
theorem mem_writes_iff (h : e.Charted p R) {m : Nat} (hm : e.temp? p.graph ref = some m) :
    m ∈ writes e.statements ↔ p.graph.Delivers ref := by
  rw [h.mem_writes m]
  constructor
  · rintro ⟨ref', hm', hdelivers⟩
    rwa [h.injective ref ref' m hm hm']
  · exact fun hdelivers => ⟨ref, hm, hdelivers⟩

theorem empty (p : PassGraph) : Charted p (fun _ => False) {} where
  live id hid := by cases hid
  fed id n hid := by cases hid
  outputs ref := False.elim
  lt_next ref m hm := by
    obtain ⟨first, n, hfirst, -⟩ := temp?_eq_some.1 hm
    cases hfirst
  injective ref ref' m hm := by
    obtain ⟨first, n, hfirst, -⟩ := temp?_eq_some.1 hm
    cases hfirst
  mem_writes m := by
    refine iff_of_false List.not_mem_nil ?_
    rintro ⟨ref, hm, -⟩
    obtain ⟨first, n, hfirst, -⟩ := temp?_eq_some.1 hm
    cases hfirst
  assigned := by
    refine iff_of_true (fun i hi => absurd hi (Nat.not_lt_zero i)) ?_
    rintro ref (hR | ⟨id, n, hid, -⟩)
    · exact hR.elim
    · cases hid

/-- An assignment reads what its operand is the temporary of. -/
theorem assign (h : e.Charted p R) (field : Field) {value : Operand}
    (htemps : ∀ ref, R' ref → (e.temp? p.graph ref).isSome)
    (hvalue : (∀ m ∈ value.temp?.toList, m ∈ writes e.statements) ↔
      ∀ ref, R' ref → p.graph.Delivers ref) :
    Charted p (fun ref => R ref ∨ R' ref)
      { e with statements := e.statements ++ [.assign field value] } where
  live := h.live
  fed := h.fed
  outputs ref hR := hR.elim (h.outputs ref) (htemps ref)
  lt_next := h.lt_next
  injective := h.injective
  mem_writes m := by
    rw [writes_append]
    change m ∈ writes e.statements ++ [] ↔ _
    rw [List.append_nil]
    exact h.mem_writes m
  assigned := by
    have hreads (ref : OutputRef) : Emission.Reads p (fun ref => R ref ∨ R' ref)
        { e with statements := e.statements ++ [.assign field value] } ref ↔
          e.Reads p R ref ∨ R' ref := or_right_comm
    simp only [definitelyAssigned_append_singleton, hreads, or_imp, forall_and]
    exact and_congr h.assigned hvalue

/-- The nodes that feed an emitted node are emitted. -/
theorem emitted_of_feeds (h : e.Charted p R) (a b : Nat) (hab : p.graph.Feeds a b)
    (hb : (e.firsts.lookup b).isSome) : (e.firsts.lookup a).isSome := by
  obtain ⟨n, hn, ref, href, rfl⟩ := hab
  exact lookup_isSome_of_temp? (h.fed b n hb hn ref href)

/-- With all outputs of the pass assigned, the statements read what the pass passes on. -/
theorem reads_iff (h : e.Charted p R) (hR : ∀ ref, R ref ↔ ∃ o, p.output o = .output ref) :
    e.Reads p R ref ↔ p.Passes ref := by
  have hlive (id : Nat) : (e.firsts.lookup id).isSome ↔ p.Live id := by
    refine ⟨h.live id, fun hlive => hlive.mem_of_closed (S := fun x => (e.firsts.lookup x).isSome)
      (fun o ref ho => ?_) h.emitted_of_feeds⟩
    exact lookup_isSome_of_temp? (h.outputs ref ((hR ref).2 ⟨o, ho⟩))
  simp only [Reads, PassGraph.Passes, hR, hlive]

end Charted

end Emission

section Call

variable {g : Graph} {id m : Nat} {n : Node}

/-- The temporaries written once a node is called are those written before and those of
the outputs that the node delivers. -/
theorem mem_writes_call {items : List (Passed Unit)} :
    m ∈ writes ((e.declare id n).statements ++ [.call (nodeCall n e.next items)]) ↔
      m ∈ writes e.statements ∨ ∃ k, n.type.Delivers k ∧ e.next + k = m := by
  have hcall : writes [.call (nodeCall n e.next items)] = (nodeCall n e.next items).writes :=
    List.append_nil _
  rw [writes_append, hcall, List.mem_append, mem_writes_nodeCall, Emission.declare, writes_append,
    writes_declarations, List.append_nil]

theorem definitelyAssigned_call {items : List (Passed Unit)} :
    DefinitelyAssigned ((e.declare id n).statements ++ [.call (nodeCall n e.next items)]) ↔
      DefinitelyAssigned e.statements ∧
        ∀ m ∈ (nodeCall n e.next items).reads, m ∈ writes e.statements := by
  rw [definitelyAssigned_append_singleton, Emission.declare, definitelyAssigned_declarations,
    writes_append, writes_declarations, List.append_nil]
  rfl

/-- A call reads nothing but what is written if the node passes on what is delivered. -/
theorem Emission.Charted.forall_mem_reads_iff (h : e.Charted p R)
    (hlength : n.inputs.length = n.type.inputs.length) {items : List (Passed Unit)}
    (hitems : ItemsOf p.graph access (e.declare id n) (n.inputs.zip n.type.inputs) items)
    (hpassed : ∀ ref, n.Passes ref → ∃ m, e.temp? p.graph ref = some m) :
    (∀ m ∈ (nodeCall n e.next items).reads, m ∈ writes e.statements) ↔
      ∀ ref, n.Passes ref → p.graph.Delivers ref := by
  have hdeclare {ref : OutputRef} {m : Nat} (hm : e.temp? p.graph ref = some m) :
      (e.declare id n).temp? p.graph ref = some m :=
    Emission.temp?_mono (List.prefix_append ..) hm
  simp only [mem_reads_of_itemsOf hlength hitems]
  constructor
  · intro hreads ref href
    obtain ⟨m, hm⟩ := hpassed ref href
    exact (h.mem_writes_iff hm).1 (hreads m ⟨ref, href, hdeclare hm⟩)
  · rintro hdelivers m ⟨ref, href, hm'⟩
    obtain ⟨m₀, hm⟩ := hpassed ref href
    obtain rfl : m₀ = m := Option.some.inj ((hdeclare hm).symm.trans hm')
    exact (h.mem_writes_iff hm).2 (hdelivers ref href)

end Call

namespace Emission

/-- What the call of a node adds to an emission: the node, with the next temporaries. -/
structure Called (g : Graph) (e : Emission) (id : Nat) (n : Node) (e' : Emission) : Prop where
  emitted : ∀ x, (e'.firsts.lookup x).isSome ↔ (e.firsts.lookup x).isSome ∨ x = id
  temp : ∀ ref m, e'.temp? g ref = some m ↔ e.temp? g ref = some m ∨
    ref.node = id ∧ ref.output < n.type.outputs.length ∧ e.next + ref.output = m
  next : e'.next = e.next + n.type.outputs.length

namespace Called

variable {id : Nat} {n : Node} (h : e.Called p.graph id n e')
include h

theorem temp?_isSome (hsome : (e.temp? p.graph ref).isSome) : (e'.temp? p.graph ref).isSome := by
  obtain ⟨m, hm⟩ := Option.isSome_iff_exists.1 hsome
  exact Option.isSome_iff_exists.2 ⟨m, (h.temp ref m).2 (.inl hm)⟩

theorem lt_next (he : e.Charted p R) (ref : OutputRef) (m : Nat)
    (hm : e'.temp? p.graph ref = some m) : m < e'.next := by
  rw [h.next]
  rcases (h.temp ref m).1 hm with hm | ⟨-, hlt, hm⟩
  · have := he.lt_next ref m hm
    omega
  · omega

theorem injective (he : e.Charted p R) (ref ref' : OutputRef) (m : Nat)
    (hm : e'.temp? p.graph ref = some m) (hm' : e'.temp? p.graph ref' = some m) : ref = ref' := by
  rcases (h.temp ref m).1 hm with hm | ⟨hnode, hlt, hm⟩ <;>
    rcases (h.temp ref' m).1 hm' with hm' | ⟨hnode', hlt', hm'⟩
  · exact he.injective ref ref' m hm hm'
  · have := he.lt_next ref m hm
    omega
  · have := he.lt_next ref' m hm'
    omega
  · obtain ⟨node, output⟩ := ref
    obtain ⟨node', output'⟩ := ref'
    obtain rfl : node = node' := hnode.trans hnode'.symm
    have houtput : output = output' := by
      simp only at hm hm'
      omega
    rw [houtput]

/-- What was written before and what the call writes are the temporaries of outputs that
are delivered. -/
theorem mem_writes_iff (he : e.Charted p R) (hn : p.graph.node? id = some n) {m : Nat} :
    (m ∈ writes e.statements ∨ ∃ k, n.type.Delivers k ∧ e.next + k = m) ↔
      ∃ ref, e'.temp? p.graph ref = some m ∧ p.graph.Delivers ref := by
  rw [he.mem_writes]
  constructor
  · rintro (⟨ref, hm, hdelivers⟩ | ⟨k, hk, hm⟩)
    · exact ⟨ref, (h.temp ref m).2 (.inl hm), hdelivers⟩
    · exact ⟨⟨id, k⟩, (h.temp _ m).2 (.inr ⟨rfl, hk.lt_length, hm⟩), n, hn, hk⟩
  · rintro ⟨ref, hm, hdelivers⟩
    rcases (h.temp ref m).1 hm with hm | ⟨rfl, -, hm⟩
    · exact .inl ⟨ref, hm, hdelivers⟩
    · obtain ⟨n', hn', hk⟩ := hdelivers
      cases hn.symm.trans hn'
      exact .inr ⟨_, hk, hm⟩

theorem reads_iff (hn : p.graph.node? id = some n) :
    e'.Reads p R ref ↔ e.Reads p R ref ∨ n.Passes ref := by
  constructor
  · rintro (hR | ⟨x, n', hx, hn', href⟩)
    · exact .inl (.inl hR)
    · rcases (h.emitted x).1 hx with hx | rfl
      · exact .inl (.inr ⟨x, n', hx, hn', href⟩)
      · cases hn.symm.trans hn'
        exact .inr href
  · rintro ((hR | ⟨x, n', hx, hn', href⟩) | href)
    · exact .inl hR
    · exact .inr ⟨x, n', (h.emitted x).2 (.inl hx), hn', href⟩
    · exact .inr ⟨id, n, (h.emitted id).2 (.inr rfl), hn, href⟩

end Called

end Emission

theorem called_of_emitCall {id : Nat} {n : Node} (hn : p.graph.node? id = some n)
    (hnew : e.firsts.lookup id = none) {items : List (Passed Unit)}
    (heq : e' = { e.declare id n with
      statements := (e.declare id n).statements ++ [.call (nodeCall n e.next items)] })
    (hcall : emitCall p.graph access id n e = .ok e') : e.Called p.graph id n e' where
  emitted _ := lookup_of_emitCall hcall
  temp _ _ := temp?_append_iff hn hnew (firsts_of_emitCall hcall)
  next := by
    rw [heq, ← outputTemps_length n e.next]
    rfl

section Sound

variable (h : p.Sound)
include h

/-- The node of a call passes on outputs that have temporaries before the call. -/
theorem temp?_isSome_of_feeds {id : Nat} {n : Node} (hlive : p.Live id)
    (hn : p.graph.node? id = some n) (hfeeds : e.Feeds p.graph (n.inputs.zip n.type.inputs))
    (hmem : .output ref ∈ n.inputs) : (e.temp? p.graph ref).isSome := by
  obtain ⟨c, hc, href⟩ := (zip_inputs h hlive hn).1 _ hmem
  obtain ⟨k, hk⟩ := List.getElem?_of_mem hmem
  have hbinding : p.graph.binding? ⟨id, k⟩ = some (.output ref) := by
    rw [Graph.binding?, hn]
    exact hk
  obtain ⟨n', hn', hlt⟩ := h.wellWired.wires hbinding
  exact Emission.temp?_isSome (hfeeds c hc ref href (by rw [hn']; rfl)) ⟨n', hn', hlt⟩

/-- Calling a node keeps the chart. -/
theorem callsKeep_charted (access : Leaf → Outcome String) (R : OutputRef → Prop) :
    CallsKeep p access (Emission.Charted p R) := by
  intro e e' id n hlive hn hnew hfeeds he hcall
  have hpassed (ref : OutputRef) (hmem : .output ref ∈ n.inputs) :
      (e.temp? p.graph ref).isSome := temp?_isSome_of_feeds h hlive hn hfeeds hmem
  obtain ⟨items, hitems, heq⟩ :=
    emitCall_eq_ok hcall fun b hb => ((zip_inputs h hlive hn).2 b hb).2
  have hcalled := called_of_emitCall hn hnew heq hcall
  have hcallReads : (∀ m ∈ (nodeCall n e.next items).reads, m ∈ writes e.statements) ↔
      ∀ ref, n.Passes ref → p.graph.Delivers ref :=
    he.forall_mem_reads_iff (h.wellWired.inputs_length hn) hitems fun ref href =>
      Option.isSome_iff_exists.1 (hpassed ref href.mem)
  refine ⟨fun x hx => ?live, fun x n' hx hn' ref href => ?fed,
    fun ref hR => hcalled.temp?_isSome (he.outputs ref hR), hcalled.lt_next he,
    hcalled.injective he, fun m => ?writes, ?assigned⟩
  case live =>
    rcases (hcalled.emitted x).1 hx with hx | rfl
    · exact he.live x hx
    · exact hlive
  case fed =>
    rcases (hcalled.emitted x).1 hx with hx | rfl
    · exact hcalled.temp?_isSome (he.fed x n' hx hn' ref href)
    · cases hn.symm.trans hn'
      exact hcalled.temp?_isSome (hpassed ref href)
  case writes => rw [heq, mem_writes_call, ← heq, hcalled.mem_writes_iff he hn]
  case assigned =>
    rw [heq, definitelyAssigned_call, ← heq, he.assigned, hcallReads]
    simp only [hcalled.reads_iff hn, or_imp, forall_and]

theorem Emission.Charted.emitOutput (he : e.Charted p R) {o : Output} {field : Field}
    (hok : emitOutput p access o field e = .ok e') :
    e'.Charted p fun ref => R ref ∨ p.output o = .output ref := by
  rcases emitOutput_eq_ok (callsKeep_charted h access R) he hok with
    ⟨ho, rfl⟩ | ⟨l, t, ho, rfl⟩ | ⟨ref, fed, m, ho, hfed, hm, rfl⟩
  · have hnone (ref : OutputRef) : R ref ∨ p.output o = .output ref ↔ R ref := by simp [ho]
    simpa only [hnone] using he
  · refine he.assign field (fun ref href => ?_) (iff_of_true ?_ fun ref href => ?_)
    · cases ho.symm.trans href
    · exact fun m hm => absurd hm List.not_mem_nil
    · cases ho.symm.trans href
  · have href (ref' : OutputRef) : p.output o = .output ref' ↔ ref' = ref := by simp [ho, eq_comm]
    refine hfed.assign field (fun ref' href' => ?_) ?_
    · rw [(href ref').1 href', hm]
      rfl
    · simp only [href, forall_eq, ← hfed.mem_writes_iff hm]
      simp [Operand.temp?]

/-- A body is definitely assigned exactly if every output that the pass passes on is the
last one of its node's type with its register. -/
theorem definitelyAssigned_iff_of_sound {body : Body} (hok : ofPass p access = .ok body) :
    DefinitelyAssigned body ↔ ∀ ref, p.Passes ref → p.graph.Delivers ref := by
  obtain ⟨e₁, e₂, e₃, hcolor, halpha, hdepth, rfl⟩ := exists_emissions hok
  have h₁ : e₁.Charted p fun ref => False ∨ p.output .color = .output ref := by
    split at hcolor
    · next hnone =>
      cases hcolor
      have hnone' : p.output .color = .unbound := hnone
      have hcharted := Emission.Charted.empty p
      refine hcharted.assign .color (fun ref href => ?_) (iff_of_true ?_ fun ref href => ?_)
      · cases hnone'.symm.trans href
      · exact fun m hm => absurd hm List.not_mem_nil
      · cases hnone'.symm.trans href
    · exact (Emission.Charted.empty p).emitOutput h hcolor
  have h₃ := (h₁.emitOutput h halpha).emitOutput h hdepth
  refine h₃.assigned.trans (forall_congr' fun ref => imp_congr_left (h₃.reads_iff fun ref => ?_))
  constructor
  · rintro (((hnone | ho) | ho) | ho)
    · exact hnone.elim
    · exact ⟨_, ho⟩
    · exact ⟨_, ho⟩
    · exact ⟨_, ho⟩
  · rintro ⟨o, ho⟩
    cases o with
    | color => exact .inl (.inl (.inr ho))
    | alpha => exact .inl (.inr ho)
    | depth => exact .inr ho

end Sound

/-- The body of a loaded pass writes every temporary before it is read exactly if every
output that the pass passes on is the last one of its node's type with its register. -/
theorem definitelyAssigned_iff {resolver : Resolver} {d : Document} {pass : Pass} {r : Registry}
    {body : Body} (hload : PassGraph.loaded resolver d pass r = .ok (some p))
    (hok : ofPass p access = .ok body) :
    DefinitelyAssigned body ↔ ∀ ref, p.Passes ref → p.graph.Delivers ref :=
  definitelyAssigned_iff_of_sound (PassGraph.sound_of_loaded hload).2 hok

section Twin

open PassGraph (Wiring wireBinding wireNode wireInputs wireOutput wireOutputs wireOutput_some
  wireOutput_none instantiate)

def twinOutput : Json :=
  .object [(some "t", .text "float4"), (some "r", .int 0)]

/-- A description of two outputs with one register. -/
def twinText : String :=
  (Json.object [(some "Outputs", .object [(some "a", twinOutput), (some "b", twinOutput)])]).render

def twinType : NodeType :=
  ⟨"Twin", [], [⟨"a", .float4, none, 0⟩, ⟨"b", .float4, none, 0⟩], none⟩

def twinResources : ResourceTable :=
  ({} : ResourceTable).insert .nodeType "Twin" twinText

/-- A document whose only pass gives one of the two outputs. -/
def twin (output : String) : Document where
  name := "twin"
  nodes := Table.empty.insert "t" ⟨"Twin", .empty⟩
  passes := Table.empty.insert "Default"
    { color := some { node := some "t", output := some output } }

def twinGraph : Graph :=
  ⟨[.ofType "t" twinType]⟩

def twinPass (k : Nat) : PassGraph where
  pass := .default
  graph := twinGraph
  color := .output ⟨0, k⟩

theorem parse_twinText : NodeType.parse "Twin" twinText = .ok twinType := by
  decide +kernel

theorem run_instantiate_twin :
    (instantiate twinResources.resolver "twin" [("t", ⟨"Twin", .empty⟩)] .empty).run .empty =
      (.ok twinGraph, Registry.put .empty twinType) := by
  have hfetch : Registry.fetch twinResources.resolver "Twin" = .ok twinType := by
    change Outcome.during _ ((NodeType.parse "Twin" twinText).mapError _) = _
    rw [parse_twinText]
    rfl
  have hload := Loading.run_during "node 't' of shader 'twin'"
    (Registry.load twinResources.resolver "Twin") .empty
  rw [Registry.run_load_of_none rfl, hfetch] at hload
  rw [instantiate]
  exact Loading.run_bind_of_ok hload

theorem wireNode_twin : wireNode [⟨"Twin", .empty⟩] [0] 0 ⟨twinGraph, []⟩ =
    .ok ⟨twinGraph, [0]⟩ := by
  rw [wireNode]
  change Except.map _ (wireInputs _ [] 0 (.ofType "t" twinType) .empty [] _) = _
  rw [wireInputs]
  rfl

theorem loaded_twin {output : String} {k : Nat} (h : (output, k) ∈ [("a", 0), ("b", 1)]) :
    PassGraph.loaded twinResources.resolver (twin output) .default .empty =
      .ok (some (twinPass k)) := by
  have hwire (site : String) : wireBinding [⟨"Twin", .empty⟩] [0] site
      { node := some "t", output := some output } ⟨twinGraph, []⟩ =
        .ok (.output ⟨0, k⟩, ⟨twinGraph, [0]⟩) := by
    have hnamed : PassGraph.namedOutput twinGraph site "t" output = .ok ⟨0, k⟩ := by
      simp only [List.mem_cons, Prod.mk.injEq, List.not_mem_nil, or_false] at h
      rcases h with ⟨rfl, rfl⟩ | ⟨rfl, rfl⟩ <;> rfl
    have hclassify : PassGraph.classify site { node := some "t", output := some output } =
        .ok (.node "t" output) := rfl
    rw [wireBinding, hclassify]
    simp only [hnamed, wireNode_twin]
    rfl
  have hwritten : (twin output).written? .default =
      some { color := some { node := some "t", output := some output } } := rfl
  have hcolor : wireOutput (twin output) .default
      { color := some { node := some "t", output := some output } } .color ⟨twinGraph, []⟩ =
        .ok (.output ⟨0, k⟩, ⟨twinGraph, [0]⟩) := by
    have hids : twinGraph.ids = [0] := rfl
    have hvalues : (twin output).nodes.values = [⟨"Twin", .empty⟩] := rfl
    rw [wireOutput_some rfl, hids, hvalues, hwire]
    simp only [List.mem_cons, Prod.mk.injEq, List.not_mem_nil, or_false] at h
    rcases h with ⟨-, rfl⟩ | ⟨-, rfl⟩ <;> rfl
  rw [PassGraph.loaded_of_instances hwritten run_instantiate_twin]
  change (wireOutput _ _ _ _ _ >>= _ : Outcome PassGraph).map some = _
  rw [hcolor]
  rfl

def twinBody (k : Nat) : Body :=
  [.declare .float4 0, .declare .float4 1, .call ⟨none, "Twin", true, [(0, .output 1)]⟩,
    .assign .color (.temp k)]

theorem ofPass_twin (access : Leaf → Outcome String) {k : Nat} (hk : k < 2) :
    ofPass (twinPass k) access = .ok (twinBody k) := by
  have hnode : emitNode twinGraph access [0] 0 {} = .ok
      ⟨2, [(0, 0)], [.declare .float4 0, .declare .float4 1,
        .call ⟨none, "Twin", true, [(0, .output 1)]⟩]⟩ := by
    rw [emitNode]
    change (emitProducers twinGraph access [] (.ofType "t" twinType) [] {}).bind _ = _
    rw [emitProducers]
    rfl
  have hcolor : emitOutput (twinPass k) access .color .color {} =
      .ok ⟨2, [(0, 0)], twinBody k⟩ := by
    change (emitNode twinGraph access [0] 0 {} >>= _ : Outcome Emission) = _
    rw [hnode]
    have hcases : k = 0 ∨ k = 1 := by omega
    rcases hcases with rfl | rfl <;> rfl
  change (emitOutput (twinPass k) access .color .color {} >>= _ : Outcome Body) = _
  rw [hcolor]
  rfl

theorem usage_twin (k : Nat) : (twinPass k).usage = .empty := by
  have hproducers : (twinGraph.node? 0).elim [] Node.producers = [] := rfl
  have hwalk : twinGraph.walk [0] [0] = [0] := by simp [Graph.walk, hproducers]
  have hvisits : (twinPass k).visits = [0] := by
    change twinGraph.walk [0] [0] ++ [] = _
    rw [hwalk]
    rfl
  unfold PassGraph.usage PassGraph.inputLeaves
  rw [hvisits]
  rfl

/-- The second output is the last one with the register, and it is all that is passed on. -/
theorem definitelyAssigned_iff_twin :
    PassGraph.loaded twinResources.resolver (twin "b") .default .empty =
      .ok (some (twinPass 1)) ∧
    ∃ body, ofPass (twinPass 1) (fun _ => .ok "") = .ok body ∧ DefinitelyAssigned body := by
  have hload : PassGraph.loaded twinResources.resolver (twin "b") .default .empty =
      .ok (some (twinPass 1)) := loaded_twin (by decide)
  refine ⟨hload, _, ofPass_twin _ (by decide), ?_⟩
  refine (definitelyAssigned_iff hload (ofPass_twin (fun _ => .ok "") (by decide))).2 ?_
  rintro ref (⟨o, ho⟩ | ⟨id, n, -, hn, href⟩)
  · cases o <;> cases ho
    exact ⟨_, rfl, by decide⟩
  · have hmem := List.mem_of_getElem? hn
    cases List.mem_singleton.1 hmem
    cases href.mem

/-- The first output is never written where the second one has its register. -/
theorem not_definitelyAssigned_twin :
    NodeType.parse "Twin" twinText = .ok twinType ∧
    PassGraph.loaded twinResources.resolver (twin "a") .default .empty =
      .ok (some (twinPass 0)) ∧
    ∃ b m t body, Mapping.base (twinPass 0).usage .default {} {} = .ok b ∧
      b.full (twinPass 0).usage {} {} = .ok (m, t) ∧
      ofPass (twinPass 0) (Accessors.mk (twinPass 0).usage m t).text = .ok body ∧
      ¬DefinitelyAssigned body := by
  refine ⟨parse_twinText, loaded_twin (by decide), ?_⟩
  rw [usage_twin]
  exact ⟨_, _, _, _, rfl, rfl, ofPass_twin _ (by decide), by decide⟩

end Twin

end Body

end MaterialGraph
