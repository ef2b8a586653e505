import MaterialGraph.Proofs.Graph.Consumers

/-!
Graphs edited in place, step by step. A step that reaches for an input or an output
that is not there ends the program, and a call that fails leaves behind what it has
changed so far. Main statement: whatever is asked of the empty graph, nothing is
reached for in vain, the calls answer as the operations on graphs do, those that
fail change nothing, and the records of the graph agree with its wires.
-/

namespace MaterialGraph.Graph

/-- Editing a graph. Nothing at all comes of a step outside the graph. -/
abbrev Edit := ExceptT Fault (StateT Graph Option)

namespace Edit

variable {α β : Type} {g g' : Graph} {i : InputRef} {o : OutputRef} {x : Edit α} {f : α → Edit β}

/-- What comes of editing a graph: an answer and the graph that is left. -/
def exec (x : Edit α) (g : Graph) : Option (Except Fault α × Graph) :=
  x.run.run g

def check (test : Graph → Except Fault Unit) : Edit Unit :=
  fun g => some (test g, g)

def setInput (i : InputRef) (b : Binding) : Edit Unit :=
  fun g => (g.binding? i).map fun _ => (.ok (), g.setInput i b)

def modifyConsumers (o : OutputRef) (f : List InputRef → List InputRef) : Edit Unit :=
  fun g => (g.consumers? o).map fun _ => (.ok (), g.modifyConsumers o f)

def instantiate (name : String) (type : NodeType) : Edit Unit :=
  fun g => some (.ok (), g.instantiate name type)

/-- The input is unbound before the output it was wired to forgets it. -/
def disconnect (i : InputRef) : Edit Unit := do
  match (← get).binding? i with
  | none => return ()
  | some b =>
    setInput i .unbound
    match b with
    | .output o => modifyConsumers o (·.erase i)
    | _ => return ()

def disconnectAll (o : OutputRef) : Edit Unit := do
  match (← get).consumers? o with
  | none => return ()
  | some inputs =>
    modifyConsumers o fun _ => []
    forM inputs fun i => setInput i .unbound

def connect (o : OutputRef) (i : InputRef) : Edit Unit := do
  check (checkOutput · o)
  check (checkInput · i)
  disconnect i
  setInput i (.output o)
  modifyConsumers o (InputRef.insert i)

def bindLeaf (i : InputRef) (l : Leaf) : Edit Unit := do
  check (checkInput · i)
  disconnect i
  setInput i (.leaf l)

theorem exec_bind_of_ok {a : α} (h : x.exec g = some (.ok a, g')) :
    (x >>= f).exec g = (f a).exec g' := by
  simp only [exec, ExceptT.run, bind, ExceptT.bind, ExceptT.mk, StateT.run, StateT.bind] at h ⊢
  rw [h]
  rfl

theorem exec_bind_of_error {e : Fault} (h : x.exec g = some (.error e, g')) :
    (x >>= f).exec g = some (.error e, g') := by
  simp only [exec, ExceptT.run, bind, ExceptT.bind, ExceptT.mk, StateT.run, StateT.bind] at h ⊢
  rw [h]
  rfl

theorem exec_get (g : Graph) : (get : Edit Graph).exec g = some (.ok g, g) := rfl

theorem exec_setInput {c : Binding} (h : g.binding? i = some c) (b : Binding) :
    (setInput i b).exec g = some (.ok (), g.setInput i b) := by
  change (g.binding? i).map _ = _
  rw [h]
  rfl

theorem exec_modifyConsumers {inputs : List InputRef} (h : g.consumers? o = some inputs)
    (f : List InputRef → List InputRef) :
    (modifyConsumers o f).exec g = some (.ok (), g.modifyConsumers o f) := by
  change (g.consumers? o).map _ = _
  rw [h]
  rfl

/-- The output that an input is wired to has a record of it to be taken away. -/
theorem exec_disconnect (h : g.Consistent) (i : InputRef) :
    (disconnect i).exec g = some (.ok (), g.disconnect i) := by
  rw [disconnect, exec_bind_of_ok (exec_get g), Graph.disconnect]
  cases hb : g.binding? i with
  | none => rfl
  | some b =>
    dsimp only
    rw [exec_bind_of_ok (exec_setInput hb .unbound)]
    cases b with
    | unbound => rfl
    | leaf l => rfl
    | output o =>
      obtain ⟨inputs, hinputs, -⟩ := (h.recorded_iff o i).2 hb
      exact exec_modifyConsumers (by rw [consumers?_setInput, hinputs]) _

theorem exec_unbindAll {inputs : List InputRef} (h : ∀ i ∈ inputs, ∃ b, g.binding? i = some b) :
    (forM inputs fun i => setInput i .unbound : Edit Unit).exec g =
      some (.ok (), inputs.foldl (fun g i => g.setInput i .unbound) g) := by
  induction inputs generalizing g with
  | nil => rfl
  | cons i rest ih =>
    obtain ⟨b, hb⟩ := h i List.mem_cons_self
    rw [List.forM_cons, exec_bind_of_ok (exec_setInput hb .unbound), List.foldl_cons]
    refine ih fun j hj => ?_
    obtain ⟨c, hc⟩ := h j (List.mem_cons_of_mem i hj)
    rw [binding?_setInput, hc]
    split
    · exact ⟨_, rfl⟩
    · exact ⟨c, rfl⟩

/-- Every recorded input is there to be unbound. -/
theorem exec_disconnectAll (h : g.Consistent) (o : OutputRef) :
    (disconnectAll o).exec g = some (.ok (), g.disconnectAll o) := by
  rw [disconnectAll, exec_bind_of_ok (exec_get g), Graph.disconnectAll]
  cases hinputs : g.consumers? o with
  | none => rfl
  | some inputs =>
    dsimp only
    rw [exec_bind_of_ok (exec_modifyConsumers hinputs _)]
    refine exec_unbindAll fun i hi => ?_
    rw [binding?_modifyConsumers]
    exact ⟨_, (h.recorded_iff o i).1 ⟨inputs, hinputs, hi⟩⟩

theorem exec_check_ok {test : Graph → Except Fault Unit} (h : test g = .ok ()) :
    (check test).exec g = some (.ok (), g) := by
  change some (test g, g) = _
  rw [h]

theorem exec_check_error {test : Graph → Except Fault Unit} {e : Fault} (h : test g = .error e) :
    (check test).exec g = some (.error e, g) := by
  change some (test g, g) = _
  rw [h]

/-- What comes of a call whose operation gives `r` on a graph. -/
def answer (g : Graph) : Except Fault Graph → Except Fault Unit × Graph
  | .ok g' => (.ok (), g')
  | .error e => (.error e, g)

/-- An input that was checked is still there when it is bound. -/
theorem binding?_disconnect_of_check (hi : g.checkInput i = .ok ()) :
    ∃ b, (g.disconnect i).binding? i = some b := by
  obtain ⟨b, hb⟩ := checkInput_eq_ok hi
  exact ⟨.unbound, by rw [binding?_disconnect, if_pos rfl, hb]; rfl⟩

theorem exec_connect (h : g.Consistent) (o : OutputRef) (i : InputRef) :
    (connect o i).exec g = some (answer g (g.connect o i)) := by
  rw [connect, Graph.connect]
  cases ho : g.checkOutput o with
  | error e => exact exec_bind_of_error (exec_check_error ho)
  | ok _ =>
    rw [exec_bind_of_ok (exec_check_ok ho)]
    cases hi : g.checkInput i with
    | error e => exact exec_bind_of_error (exec_check_error hi)
    | ok _ =>
      rw [exec_bind_of_ok (exec_check_ok hi), exec_bind_of_ok (exec_disconnect h i)]
      -- Disconnecting may unwire the very output that is connected, which stays there.
      obtain ⟨b, hb⟩ := binding?_disconnect_of_check hi
      obtain ⟨inputs, hinputs⟩ := exists_consumers?_of_outline (outline_disconnect g i)
        (exists_consumers?_iff.2 (checkOutput_eq_ok ho))
      rw [exec_bind_of_ok (exec_setInput hb _)]
      exact exec_modifyConsumers (by rw [consumers?_setInput, hinputs]) _

theorem exec_bindLeaf (h : g.Consistent) (i : InputRef) (l : Leaf) :
    (bindLeaf i l).exec g = some (answer g (g.bindLeaf i l)) := by
  rw [bindLeaf, Graph.bindLeaf]
  cases hi : g.checkInput i with
  | error e => exact exec_bind_of_error (exec_check_error hi)
  | ok _ =>
    rw [exec_bind_of_ok (exec_check_ok hi), exec_bind_of_ok (exec_disconnect h i)]
    obtain ⟨b, hb⟩ := binding?_disconnect_of_check hi
    exact exec_setInput hb _

end Edit

/-- What a graph may be asked for. References need not be valid. -/
inductive Request
  | instantiate (name : String) (type : NodeType)
  | connect (o : OutputRef) (i : InputRef)
  | bindLeaf (i : InputRef) (l : Leaf)
  | disconnect (i : InputRef)
  | disconnectAll (o : OutputRef)

namespace Request

/-- What the operation that is asked for gives. -/
def perform (g : Graph) : Request → Except Fault Graph
  | instantiate name type => .ok (g.instantiate name type)
  | connect o i => g.connect o i
  | bindLeaf i l => g.bindLeaf i l
  | disconnect i => .ok (g.disconnect i)
  | disconnectAll o => .ok (g.disconnectAll o)

def edit : Request → Edit Unit
  | instantiate name type => .instantiate name type
  | connect o i => .connect o i
  | bindLeaf i l => .bindLeaf i l
  | disconnect i => .disconnect i
  | disconnectAll o => .disconnectAll o

/-- The answers to requests made one after the other. -/
def editAll (requests : List Request) : StateT Graph Option (List (Except Fault Unit)) :=
  requests.mapM fun r => r.edit.run

variable {g : Graph}

theorem exec_edit (h : g.Consistent) (r : Request) :
    r.edit.exec g = some (Edit.answer g (r.perform g)) := by
  cases r with
  | instantiate name type => rfl
  | connect o i => exact Edit.exec_connect h o i
  | bindLeaf i l => exact Edit.exec_bindLeaf h i l
  | disconnect i => exact Edit.exec_disconnect h i
  | disconnectAll o => exact Edit.exec_disconnectAll h o

theorem consistent_perform {g' : Graph} (h : g.Consistent) {r : Request}
    (hr : r.perform g = .ok g') : g'.Consistent := by
  cases r with
  | instantiate name type =>
    cases hr
    exact h.instantiate name type
  | connect o i => exact h.connect hr
  | bindLeaf i l => exact h.bindLeaf hr
  | disconnect i =>
    cases hr
    exact h.disconnect i
  | disconnectAll o =>
    cases hr
    exact h.disconnectAll o

/-- A request leaves a consistent graph, and the graph it was made of if it fails. -/
theorem consistent_answer (h : g.Consistent) (r : Request) :
    (Edit.answer g (r.perform g)).2.Consistent := by
  cases hr : r.perform g with
  | error e => exact h
  | ok g' => exact consistent_perform h hr

theorem run_editAll (h : g.Consistent) (requests : List Request) :
    ∃ answers g', (editAll requests).run g = some (answers, g') ∧
      answers.length = requests.length ∧ g'.Consistent := by
  induction requests generalizing g with
  | nil => exact ⟨[], g, rfl, rfl, h⟩
  | cons r rest ih =>
    obtain ⟨answers, g', hrest, hlength, hg'⟩ := ih (consistent_answer h r)
    refine ⟨(Edit.answer g (r.perform g)).1 :: answers, g', ?_, congrArg (· + 1) hlength, hg'⟩
    have hfirst : r.edit.run.run g = some (Edit.answer g (r.perform g)) := exec_edit h r
    rw [editAll, List.mapM_cons, StateT.run_bind, hfirst]
    change ((editAll rest).run (Edit.answer g (r.perform g)).2).bind _ = _
    rw [hrest]
    rfl

/-- Whatever is asked of the empty graph, no request reaches outside the graph. Each
is answered as its operation answers, and the graph stays as it was if it fails. -/
theorem editAll_consistent (requests : List Request) :
    ∃ answers g, (editAll requests).run .empty = some (answers, g) ∧
      answers.length = requests.length ∧ g.Consistent ∧
      ∀ r : Request, ∃ a g', r.edit.exec g = some (a, g') ∧
        (a, g') = Edit.answer g (r.perform g) ∧ ∀ e, a = .error e → g' = g := by
  obtain ⟨answers, g, hrun, hlength, hg⟩ := run_editAll .empty requests
  refine ⟨answers, g, hrun, hlength, hg, fun r => ⟨_, _, exec_edit hg r, rfl, fun e he => ?_⟩⟩
  cases hr : r.perform g with
  | error e => rfl
  | ok g' =>
    rw [hr] at he
    cases he

end Request

end MaterialGraph.Graph
