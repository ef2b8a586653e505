import MaterialGraph.Proofs.Body.Steps

/-!
What the call of a node writes and reads where pins share registers. Of the outputs
with one register the last is written and the others are not; an input is read unless
an output or an input before it has its register.
-/

namespace MaterialGraph

open Body (Passed inputItems outputItems outputTemps outputArguments placeAll place Ascending
  resultTemp? place_ascending placeAll_ascending)

/-- Whether an output of a type is the last one with its register. -/
def NodeType.Delivers (t : NodeType) (k : Nat) : Prop :=
  ∃ pin ∈ t.outputs[k]?, ∀ q ∈ t.outputs.drop (k + 1), q.register ≠ pin.register

instance (t : NodeType) (k : Nat) : Decidable (t.Delivers k) :=
  inferInstanceAs (Decidable (∃ pin ∈ t.outputs[k]?, _))

/-- Whether a node passes an output on to its function: some input is bound to it whose
register belongs to no output that is passed and to no input before. -/
def Node.Passes (n : Node) (ref : OutputRef) : Prop :=
  ∃ k pin, n.inputs[k]? = some (.output ref) ∧ n.type.inputs[k]? = some pin ∧
    (∀ q ∈ n.type.outputs, q.register = returnRegister ∨ q.register ≠ pin.register) ∧
    ∀ q ∈ n.type.inputs.take k, q.register ≠ pin.register

theorem Node.Passes.mem {n : Node} {ref : OutputRef} (h : n.Passes ref) :
    .output ref ∈ n.inputs := by
  obtain ⟨k, pin, hk, -⟩ := h
  exact List.mem_of_getElem? hk

def Operand.temp? : Operand → Option Nat
  | temp n => some n
  | text _ => none

/-- The temporaries that a call gives values to. -/
def Call.writes (c : Call) : List Nat :=
  c.result.toList ++ c.arguments.filterMap fun a => a.2.output?

/-- The temporaries that a call takes values from. -/
def Call.reads (c : Call) : List Nat :=
  (c.arguments.filterMap fun a => a.2.input?).filterMap Operand.temp?

/-- Whether the pin at a position has a register that no pin after it has. -/
def LastWith (pins : List Pin) (r : Int) (k : Nat) : Prop :=
  ∃ pin ∈ pins[k]?, pin.register = r ∧ ∀ q ∈ pins.drop (k + 1), q.register ≠ r

/-- Whether the pin at a position has a register that no pin before it has. -/
def FirstWith (pins : List Pin) (r : Int) (k : Nat) : Prop :=
  ∃ pin ∈ pins[k]?, pin.register = r ∧ ∀ q ∈ pins.take k, q.register ≠ r

/-- Whether no output of a type is passed at a register. -/
def NodeType.LeavesFree (t : NodeType) (r : Int) : Prop :=
  ∀ q ∈ t.outputs, q.register = returnRegister ∨ q.register ≠ r

theorem LastWith.lt_length {pins : List Pin} {r : Int} {k : Nat} (h : LastWith pins r k) :
    k < pins.length := by
  obtain ⟨pin, hpin, -⟩ := h
  exact (List.getElem?_eq_some_iff.1 hpin).1

theorem NodeType.delivers_iff {t : NodeType} {k : Nat} :
    t.Delivers k ↔ ∃ r, LastWith t.outputs r k := by
  constructor
  · rintro ⟨pin, hpin, hafter⟩
    exact ⟨pin.register, pin, hpin, rfl, hafter⟩
  · rintro ⟨r, pin, hpin, rfl, hafter⟩
    exact ⟨pin, hpin, hafter⟩

theorem NodeType.Delivers.lt_length {t : NodeType} {k : Nat} (h : t.Delivers k) :
    k < t.outputs.length := by
  obtain ⟨r, hk⟩ := NodeType.delivers_iff.1 h
  exact hk.lt_length

namespace Body

section Lookup

variable {α β : Type*} [BEq α] [LawfulBEq α]

theorem lookup_map {γ : Type*} (f : γ → α) (g : γ → β) (l : List γ) (r : α) :
    (l.map fun x => (f x, g x)).lookup r = (l.find? fun x => f x == r).map g := by
  induction l with
  | nil => rfl
  | cons x rest ih =>
    rw [List.map_cons, List.lookup_cons, List.find?_cons, ih, BEq.comm]
    cases f x == r <;> rfl

theorem eq_take_append_drop {γ : Type*} {l : List γ} {k : Nat} {x : γ} (h : l[k]? = some x) :
    l = l.take k ++ x :: l.drop (k + 1) := by
  obtain ⟨hlt, heq⟩ := List.getElem?_eq_some_iff.1 h
  rw [← heq, List.getElem_cons_drop, List.take_append_drop]

/-- What is found is the first entry with a property. -/
theorem find?_eq_some_iff_take {γ : Type*} {l : List γ} {f : γ → Bool} {x : γ} :
    l.find? f = some x ↔ f x ∧ ∃ k : Nat, l[k]? = some x ∧ ∀ y ∈ l.take k, ¬f y := by
  rw [List.find?_eq_some_iff_append]
  refine and_congr_right fun _ => ?_
  constructor
  · rintro ⟨before, after, rfl, hbefore⟩
    refine ⟨before.length, by simp, fun y hy => ?_⟩
    rw [List.take_left] at hy
    simpa using hbefore y hy
  · rintro ⟨k, hk, hbefore⟩
    refine ⟨l.take k, l.drop (k + 1), eq_take_append_drop hk, fun y hy => ?_⟩
    simpa using hbefore y hy

/-- What is found from the end is the last entry with a property. -/
theorem find?_reverse_eq_some_iff {γ : Type*} {l : List γ} {f : γ → Bool} {x : γ} :
    l.reverse.find? f = some x ↔
      f x ∧ ∃ k : Nat, l[k]? = some x ∧ ∀ y ∈ l.drop (k + 1), ¬f y := by
  rw [List.find?_eq_some_iff_append]
  refine and_congr_right fun _ => ?_
  constructor
  · rintro ⟨after, before, hl, hafter⟩
    obtain rfl : l = before.reverse ++ x :: after.reverse := by
      simpa using congrArg List.reverse hl
    refine ⟨before.reverse.length, by simp, fun y hy => ?_⟩
    have hdrop : (before.reverse ++ x :: after.reverse).drop (before.reverse.length + 1) =
        after.reverse := by
      rw [List.drop_append, List.drop_eq_nil_of_le (Nat.le_succ _), List.nil_append]
      simp
    rw [hdrop, List.mem_reverse] at hy
    simpa using hafter y hy
  · rintro ⟨k, hk, hafter⟩
    refine ⟨(l.drop (k + 1)).reverse, (l.take k).reverse, ?_, fun y hy => ?_⟩
    · conv_lhs => rw [eq_take_append_drop hk]
      simp
    · simpa using hafter y (List.mem_reverse.1 hy)

end Lookup

section Place

variable {r s : Int} {a : Argument} {l : List (Int × Argument)}

theorem Ascending.lookup_eq_none {q : Int} {b : Argument} (h : Ascending ((q, b) :: l))
    (hr : r < q) : List.lookup r ((q, b) :: l) = none := by
  refine List.lookup_eq_none_iff.2 fun x hx => ?_
  have hle : q ≤ x.1 := by
    rcases List.mem_cons.1 hx with rfl | hx
    · exact Int.le_refl _
    · exact Int.le_of_lt ((List.pairwise_cons.1 h).1 x hx)
  simp only [bne_iff_ne]
  omega

/-- An argument that replaces others is found before them. -/
theorem lookup_place_true (h : Ascending l) :
    (place true r a l).lookup s = List.lookup s ((r, a) :: l) := by
  induction l with
  | nil => rfl
  | cons e rest ih =>
    obtain ⟨q, b⟩ := e
    rw [place]
    split
    · rfl
    · split
      · next heq =>
        subst heq
        by_cases hs : s = r
        · simp [hs]
        · have hne : (s == r) = false := beq_false_of_ne hs
          simp [List.lookup_cons, hne]
      · next hne =>
        rw [List.lookup_cons, ih (List.pairwise_cons.1 h).2]
        by_cases hs : s = r
        · have hsq : (s == q) = false := beq_false_of_ne (hs ▸ hne)
          simp [hs, hs ▸ hsq]
        · have hsr : (s == r) = false := beq_false_of_ne hs
          simp [List.lookup_cons, hsr]

/-- An argument that is kept from replacing others is found after them. -/
theorem lookup_place_false (h : Ascending l) :
    (place false r a l).lookup s = List.lookup s (l ++ [(r, a)]) := by
  induction l with
  | nil => rfl
  | cons e rest ih =>
    obtain ⟨q, b⟩ := e
    rw [place]
    split
    · next hlt =>
      by_cases hs : s = r
      · subst hs
        rw [List.lookup_append, h.lookup_eq_none hlt]
        simp
      · have hsr : (s == r) = false := beq_false_of_ne hs
        rw [List.lookup_append, List.lookup_cons, hsr]
        simp [List.lookup_cons, hsr]
    · split
      · next heq =>
        subst heq
        by_cases hs : s = r
        · simp [hs]
        · have hsr : (s == r) = false := beq_false_of_ne hs
          simp [List.lookup_append, List.lookup_cons, hsr]
      · rw [List.lookup_cons, ih (List.pairwise_cons.1 h).2, List.cons_append, List.lookup_cons]

theorem lookup_placeAll_true {items args : List (Int × Argument)} (h : Ascending args) :
    (placeAll true items args).lookup r = (items.reverse ++ args).lookup r := by
  induction items generalizing args with
  | nil => rfl
  | cons i rest ih =>
    change (placeAll true rest (place true i.1 i.2 args)).lookup r = _
    rw [ih (place_ascending h), List.lookup_append, lookup_place_true h, List.reverse_cons,
      List.append_assoc, List.lookup_append]
    rfl

theorem lookup_placeAll_false {items args : List (Int × Argument)} (h : Ascending args) :
    (placeAll false items args).lookup r = (args ++ items).lookup r := by
  induction items generalizing args with
  | nil => rw [List.append_nil]; rfl
  | cons i rest ih =>
    change (placeAll false rest (place false i.1 i.2 args)).lookup r = _
    rw [ih (place_ascending h), List.lookup_append, lookup_place_false h, ← List.lookup_append,
      List.append_assoc]
    rfl

theorem Ascending.mem_iff_lookup (h : Ascending l) : (r, a) ∈ l ↔ l.lookup r = some a := by
  rw [List.lookup_eq_some_iff]
  constructor
  · intro hmem
    obtain ⟨before, after, rfl⟩ := List.append_of_mem hmem
    refine ⟨before, after, rfl, fun q hq => ?_⟩
    have hlt := (List.pairwise_append.1 h).2.2 q hq (r, a) List.mem_cons_self
    simpa using (Int.ne_of_lt hlt).symm
  · rintro ⟨before, after, rfl, -⟩
    exact List.mem_append_right _ List.mem_cons_self

end Place

section Outputs

variable {outputs : List (Pin × Nat)} {n : Node} {first m : Nat} {r : Int}

/-- The last output with a register. -/
def lastWith? (outputs : List (Pin × Nat)) (r : Int) : Option (Pin × Nat) :=
  outputs.reverse.find? fun o => o.1.register == r

theorem resultTemp?_eq_lastWith? (outputs : List (Pin × Nat)) :
    resultTemp? outputs = (lastWith? outputs returnRegister).map (·.2) := by
  rw [resultTemp?, lastWith?, List.getLast?_eq_head?_reverse, ← List.filter_reverse,
    List.head?_filter]

theorem lookup_outputItems (outputs : List (Pin × Nat)) (r : Int) :
    (outputItems outputs).lookup r = if r = returnRegister then none else
      (outputs.find? fun o => o.1.register == r).map fun o => .output o.2 := by
  rw [outputItems, lookup_map, List.find?_filter]
  by_cases hr : r = returnRegister
  · subst hr
    rw [if_pos rfl, Option.map_eq_none_iff, List.find?_eq_none]
    intro o _
    simp
  · rw [if_neg hr]
    congr 2
    funext o
    by_cases ho : o.1.register = r <;> simp [ho, hr]

theorem lookup_outputArguments (outputs : List (Pin × Nat)) (r : Int) :
    (outputArguments outputs).lookup r = if r = returnRegister then none else
      (lastWith? outputs r).map fun o => .output o.2 := by
  have hreverse : (outputItems outputs).reverse = outputItems outputs.reverse := by
    rw [outputItems, outputItems, List.filter_reverse, List.map_reverse]
  rw [outputArguments_eq, lookup_placeAll_true List.Pairwise.nil, List.append_nil, hreverse,
    lookup_outputItems]
  rfl

theorem outputArguments_ascending (outputs : List (Pin × Nat)) :
    Ascending (outputArguments outputs) := by
  rw [outputArguments_eq]
  exact placeAll_ascending List.Pairwise.nil

theorem outputTemps_getElem? {k : Nat} {pin : Pin} : (outputTemps n first)[k]? = some (pin, m) ↔
    n.type.outputs[k]? = some pin ∧ first + k = m := by
  rw [outputTemps, List.getElem?_zip_eq_some]
  refine and_congr_right fun hk => ?_
  have hlt : k < n.type.outputs.length := (List.getElem?_eq_some_iff.1 hk).1
  rw [List.getElem?_range' hlt, Nat.one_mul, Option.some_inj]

theorem lastWith?_outputTemps_eq_some_iff :
    (lastWith? (outputTemps n first) r).map (·.2) = some m ↔
      ∃ k, LastWith n.type.outputs r k ∧ first + k = m := by
  have hlater (k : Nat) : (∀ o ∈ (outputTemps n first).drop (k + 1), o.1.register ≠ r) ↔
      ∀ q ∈ n.type.outputs.drop (k + 1), q.register ≠ r := by
    conv_rhs => rw [← outputTemps_fst n first, ← List.map_drop, List.forall_mem_map]
  simp only [lastWith?, Option.map_eq_some_iff, find?_reverse_eq_some_iff, beq_iff_eq, hlater]
  constructor
  · rintro ⟨⟨pin, m'⟩, ⟨rfl, k, hk, hafter⟩, rfl⟩
    obtain ⟨hpin, hm⟩ := outputTemps_getElem?.1 hk
    exact ⟨k, ⟨pin, hpin, rfl, hafter⟩, hm⟩
  · rintro ⟨k, ⟨pin, hpin, rfl, hafter⟩, hm⟩
    exact ⟨(pin, m), ⟨rfl, k, outputTemps_getElem?.2 ⟨hpin, hm⟩, hafter⟩, rfl⟩

/-- The temporary of the last output with some register is that of an output delivered. -/
theorem exists_lastWith?_iff : (∃ r, (lastWith? (outputTemps n first) r).map (·.2) = some m) ↔
    ∃ k, n.type.Delivers k ∧ first + k = m := by
  simp only [lastWith?_outputTemps_eq_some_iff, NodeType.delivers_iff]
  constructor
  · rintro ⟨r, k, hk, hm⟩
    exact ⟨k, ⟨r, hk⟩, hm⟩
  · rintro ⟨k, ⟨r, hk⟩, hm⟩
    exact ⟨r, k, hk, hm⟩

end Outputs

section Call

variable {n : Node} {first m : Nat} {items : List (Passed Unit)}

theorem nodeCall_ascending (n : Node) (first : Nat) (items : List (Passed Unit)) :
    Ascending (nodeCall n first items).arguments :=
  placeAll_ascending (outputArguments_ascending _)

/-- At a register a call passes the last output with it, and otherwise the first input. -/
theorem lookup_nodeCall (n : Node) (first : Nat) (items : List (Passed Unit)) (r : Int) :
    (nodeCall n first items).arguments.lookup r =
      (if r = returnRegister then none else
        (lastWith? (outputTemps n first) r).map fun o => .output o.2).or
      ((items.find? fun i => i.1 == r).map fun i => .input i.2.1) := by
  rw [← lookup_outputArguments, ← lookup_map, ← inputItems, ← List.lookup_append]
  exact lookup_placeAll_false (outputArguments_ascending _)

theorem mem_nodeCall_iff_lookup {r : Int} {a : Argument} :
    (r, a) ∈ (nodeCall n first items).arguments ↔
      (nodeCall n first items).arguments.lookup r = some a :=
  (nodeCall_ascending n first items).mem_iff_lookup

/-- An argument takes a value out at the temporary of the last output with its register. -/
theorem output_mem_nodeCall {r : Int} : (r, .output m) ∈ (nodeCall n first items).arguments ↔
    r ≠ returnRegister ∧ (lastWith? (outputTemps n first) r).map (·.2) = some m := by
  rw [mem_nodeCall_iff_lookup, lookup_nodeCall]
  by_cases hr : r = returnRegister
  · simp [hr]
  · cases lastWith? (outputTemps n first) r <;> simp [hr]

theorem mem_outputs_nodeCall :
    m ∈ ((nodeCall n first items).arguments.filterMap fun a => a.2.output?) ↔
      ∃ r ≠ returnRegister, (lastWith? (outputTemps n first) r).map (·.2) = some m := by
  have houtput (r : Int) : (r, .output m) ∈ (nodeCall n first items).arguments ↔
      r ≠ returnRegister ∧ (lastWith? (outputTemps n first) r).map (·.2) = some m :=
    output_mem_nodeCall
  simp only [← houtput, List.mem_filterMap]
  constructor
  · rintro ⟨⟨r, a⟩, ha, hm⟩
    cases a <;> cases hm
    exact ⟨r, ha⟩
  · rintro ⟨r, hr⟩
    exact ⟨_, hr, rfl⟩

/-- The call of a node writes the temporaries of the outputs that its type delivers. -/
theorem mem_writes_nodeCall : m ∈ (nodeCall n first items).writes ↔
    ∃ k, n.type.Delivers k ∧ first + k = m := by
  have hresult : m ∈ (nodeCall n first items).result.toList ↔
      (lastWith? (outputTemps n first) returnRegister).map (·.2) = some m := by
    rw [Option.mem_toList, ← resultTemp?_eq_lastWith?]
    rfl
  rw [← exists_lastWith?_iff, Call.writes, List.mem_append, hresult, mem_outputs_nodeCall]
  constructor
  · rintro (h | ⟨r, -, h⟩)
    · exact ⟨_, h⟩
    · exact ⟨r, h⟩
  · rintro ⟨r, h⟩
    by_cases hr : r = returnRegister
    · exact .inl (hr ▸ h)
    · exact .inr ⟨r, hr, h⟩

theorem lastWith?_eq_none_iff {outputs : List (Pin × Nat)} {r : Int} :
    lastWith? outputs r = none ↔ ∀ q ∈ outputs.map Prod.fst, q.register ≠ r := by
  simp [lastWith?, List.find?_eq_none]

/-- A call reads a temporary that one of its arguments passes in. -/
theorem mem_reads_iff_argument {c : Call} :
    m ∈ c.reads ↔ ∃ r, (r, .input (.temp m)) ∈ c.arguments := by
  simp only [Call.reads, List.mem_filterMap]
  constructor
  · rintro ⟨o, ⟨⟨r, a⟩, ha, ho⟩, hm⟩
    cases a <;> cases ho
    cases o <;> cases hm
    exact ⟨r, ha⟩
  · rintro ⟨r, hr⟩
    exact ⟨.temp m, ⟨_, hr, rfl⟩, rfl⟩

/-- A register is left to the inputs where no output is passed with it. -/
theorem passedOutput_eq_none_iff (r : Int) : (if r = returnRegister then none else
    (lastWith? (outputTemps n first) r).map fun o => Argument.output o.2) = none ↔
      n.type.LeavesFree r := by
  by_cases hr : r = returnRegister
  · subst hr
    simp [NodeType.LeavesFree, em]
  · rw [if_neg hr, Option.map_eq_none_iff, lastWith?_eq_none_iff, outputTemps_fst]
    refine forall₂_congr fun q _ => ⟨.inr, ?_⟩
    rintro (hq | hq) rfl
    · exact hr hq
    · exact hq rfl

/-- An argument passes in the first item with its register, which is left to the inputs. -/
theorem input_mem_nodeCall {r : Int} {v : Operand} :
    (r, .input v) ∈ (nodeCall n first items).arguments ↔ n.type.LeavesFree r ∧
      ∃ k i, items[k]? = some i ∧ i.1 = r ∧ i.2.1 = v ∧ ∀ j ∈ items.take k, j.1 ≠ r := by
  rw [mem_nodeCall_iff_lookup, lookup_nodeCall, Option.or_eq_some_iff]
  constructor
  · rintro (h | ⟨hnone, h⟩)
    · split at h
      · cases h
      · obtain ⟨o, -, ho⟩ := Option.map_eq_some_iff.1 h
        cases ho
    · obtain ⟨i, hi, heq⟩ := Option.map_eq_some_iff.1 h
      obtain ⟨hregister, k, hk, hbefore⟩ := find?_eq_some_iff_take.1 hi
      exact ⟨(passedOutput_eq_none_iff r).1 hnone, k, i, hk, beq_iff_eq.1 hregister,
        Argument.input.inj heq, by simpa using hbefore⟩
  · rintro ⟨hfree, k, i, hk, hregister, hv, hbefore⟩
    refine .inr ⟨(passedOutput_eq_none_iff r).2 hfree, Option.map_eq_some_iff.2 ⟨i, ?_, ?_⟩⟩
    · exact find?_eq_some_iff_take.2 ⟨beq_iff_eq.2 hregister, k, hk, by simpa using hbefore⟩
    · rw [hv]

/-- The call of a node reads an item that comes first at a register without an output. -/
theorem mem_reads_nodeCall : m ∈ (nodeCall n first items).reads ↔
    ∃ k i, items[k]? = some i ∧ i.2.1 = .temp m ∧ n.type.LeavesFree i.1 ∧
      ∀ j ∈ items.take k, j.1 ≠ i.1 := by
  rw [mem_reads_iff_argument]
  constructor
  · rintro ⟨r, hr⟩
    obtain ⟨hfree, k, i, hk, rfl, htemp, hbefore⟩ := input_mem_nodeCall.1 hr
    exact ⟨k, i, hk, htemp, hfree, hbefore⟩
  · rintro ⟨k, i, hk, htemp, hfree, hbefore⟩
    exact ⟨i.1, input_mem_nodeCall.2 ⟨hfree, k, i, hk, rfl, htemp, hbefore⟩⟩

end Call

section Emitted

variable {g : Graph} {access : Leaf → Outcome String} {e e' : Emission} {ref : OutputRef}
  {id m : Nat} {n : Node} {items : List (Passed Unit)}

/-- Whether some items are the operands of inputs, at the registers of the inputs. -/
def ItemsOf (g : Graph) (access : Leaf → Outcome String) (e : Emission)
    (inputs : List (Binding × Pin)) (items : List (Passed Unit)) : Prop :=
  List.Forall₂ (fun b i => i.1 = b.2.register ∧ operand? g access e b.1 = .ok (some i.2.1)) inputs
    items

theorem exists_itemsOf {inputs : List (Binding × Pin)} {args result : List (Int × Argument)}
    (h : inputArguments g access e inputs args = .ok result)
    (hbound : ∀ b ∈ inputs, b.1 ≠ .unbound) : ∃ items, ItemsOf g access e inputs items := by
  induction inputs generalizing args with
  | nil => exact ⟨[], .nil⟩
  | cons b rest ih =>
    obtain ⟨b, pin⟩ := b
    obtain ⟨o?, ho, hrest⟩ := Except.bind_eq_ok_iff.1 h
    have hrest' := fun c hc => hbound c (List.mem_cons_of_mem _ hc)
    cases o? with
    | none =>
      have hunbound : b = .unbound := by
        cases b with
        | unbound => rfl
        | leaf l =>
          rw [operand?] at ho
          cases hl : access l <;> rw [hl] at ho <;> cases ho
        | output ref =>
          rw [operand?] at ho
          split at ho <;> cases ho
      exact absurd hunbound (hbound _ List.mem_cons_self)
    | some o =>
      obtain ⟨items, hitems⟩ := ih hrest hrest'
      exact ⟨(pin.register, o, ()) :: items, .cons ⟨rfl, ho⟩ hitems⟩

/-- A call that is emitted is that of its node with the operands of its inputs. -/
theorem emitCall_eq_ok (h : emitCall g access id n e = .ok e')
    (hbound : ∀ b ∈ n.inputs.zip n.type.inputs, b.1 ≠ .unbound) :
    ∃ items, ItemsOf g access (e.declare id n) (n.inputs.zip n.type.inputs) items ∧
      e' = { e.declare id n with
        statements := (e.declare id n).statements ++ [.call (nodeCall n e.next items)] } := by
  have harguments := h
  rw [emitCall_eq_bind] at harguments
  obtain ⟨result, hresult, -⟩ := Except.bind_eq_ok_iff.1 harguments
  obtain ⟨items, hitems⟩ := exists_itemsOf hresult hbound
  exact ⟨items, hitems, Except.ok.inj (h.symm.trans (emitCall_eq hitems))⟩

/-- A new node has the next temporaries, and the others stay as they are. -/
theorem temp?_append_iff (hn : g.node? id = some n) (hnew : e.firsts.lookup id = none)
    (he : e'.firsts = e.firsts ++ [(id, e.next)]) : e'.temp? g ref = some m ↔
      e.temp? g ref = some m ∨
        ref.node = id ∧ ref.output < n.type.outputs.length ∧ e.next + ref.output = m := by
  constructor
  · intro hm
    refine (Emission.temp?_of_append he hm).imp_right ?_
    rintro ⟨rfl, hm, n', hn', hlt⟩
    cases hn.symm.trans hn'
    exact ⟨rfl, hlt, hm⟩
  · rintro (hm | ⟨rfl, hlt, hm⟩)
    · exact Emission.temp?_mono (he ▸ List.prefix_append ..) hm
    · refine Emission.temp?_eq_some.2 ⟨e.next, n, ?_, hn, hlt, hm⟩
      rw [he, List.lookup_append, hnew, Option.none_or]
      simp

theorem operand?_eq_temp {b : Binding} (h : operand? g access e b = .ok (some (.temp m))) :
    ∃ ref, b = .output ref ∧ e.temp? g ref = some m := by
  cases b with
  | unbound => cases h
  | leaf l =>
    rw [operand?] at h
    cases hl : access l <;> rw [hl] at h <;> cases h
  | output ref =>
    rw [operand?] at h
    split at h
    · next m' hm =>
      cases h
      exact ⟨ref, rfl, hm⟩
    · cases h

theorem operand?_eq_text {b : Binding} {s : String}
    (h : operand? g access e b = .ok (some (.text s))) : ∃ l, b = .leaf l ∧ access l = .ok s := by
  cases b with
  | unbound => cases h
  | leaf l =>
    rw [operand?] at h
    cases hl : access l with
    | ok t =>
      rw [hl] at h
      cases h
      exact ⟨l, rfl, hl⟩
    | error f =>
      rw [hl] at h
      cases h
  | output ref =>
    rw [operand?] at h
    split at h <;> cases h

/-- Items before a position have a register exactly if pins before it do. -/
theorem forall_take_itemsOf (hlength : n.inputs.length = n.type.inputs.length)
    (hitems : ItemsOf g access e (n.inputs.zip n.type.inputs) items) (k : Nat) (r : Int) :
    (∀ j ∈ items.take k, j.1 ≠ r) ↔ ∀ q ∈ n.type.inputs.take k, q.register ≠ r := by
  rw [← List.forall_mem_map (f := fun j : Passed Unit => j.1) (P := (· ≠ r)), List.map_take,
    items_registers hlength hitems, ← List.map_take, List.forall_mem_map]

/-- The call of a node reads the temporaries of the outputs that the node passes on. -/
theorem mem_reads_of_itemsOf (hlength : n.inputs.length = n.type.inputs.length)
    (hitems : ItemsOf g access e (n.inputs.zip n.type.inputs) items) {first : Nat} :
    m ∈ (nodeCall n first items).reads ↔ ∃ ref, n.Passes ref ∧ e.temp? g ref = some m := by
  have hbefore (k : Nat) (r : Int) := forall_take_itemsOf hlength hitems k r
  rw [mem_reads_nodeCall]
  constructor
  · rintro ⟨k, ⟨r, o, u⟩, hk, rfl, hfree, hfirst⟩
    obtain ⟨⟨b, pin⟩, hb, rfl, ho⟩ := hitems.flip.exists_getElem? k _ hk
    obtain ⟨hinput, hpin⟩ := List.getElem?_zip_eq_some.1 hb
    obtain ⟨ref, rfl, hm⟩ := operand?_eq_temp ho
    exact ⟨ref, ⟨k, pin, hinput, hpin, hfree, (hbefore k _).1 hfirst⟩, hm⟩
  · rintro ⟨ref, ⟨k, pin, hinput, hpin, hfree, hfirst⟩, hm⟩
    have hb : (n.inputs.zip n.type.inputs)[k]? = some (.output ref, pin) :=
      List.getElem?_zip_eq_some.2 ⟨hinput, hpin⟩
    obtain ⟨⟨r, o, u⟩, hk, rfl, ho⟩ := hitems.exists_getElem? k _ hb
    refine ⟨k, _, hk, ?_, hfree, (hbefore k _).2 hfirst⟩
    rw [operand?, hm] at ho
    cases ho
    rfl

end Emitted

end Body

end MaterialGraph
