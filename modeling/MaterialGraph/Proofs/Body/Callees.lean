import MaterialGraph.Proofs.Body.Steps

/-!
What the body of a pass calls. Main statement: every call in it is that of a node
on which an output of the pass depends.
-/

namespace MaterialGraph

/-- Whether a call is that of a node of the pass that an output depends on. -/
def PassGraph.Calls (p : PassGraph) (c : Call) : Prop :=
  ∃ id n, p.Live id ∧ p.graph.node? id = some n ∧ c.function = n.type.function ∧
    c.own = n.type.aliasName.isNone

namespace Body

variable {p : PassGraph} {access : Leaf → Outcome String} {e e' : Emission}

/-- Whether every call emitted so far is that of such a node. -/
def Emission.CallsLive (p : PassGraph) (e : Emission) : Prop :=
  ∀ c, .call c ∈ e.statements → p.Calls c

theorem Emission.CallsLive.assign (h : e.CallsLive p) (field : Field) (value : Operand) :
    Emission.CallsLive p { e with statements := e.statements ++ [.assign field value] } := by
  intro c hc
  rcases List.mem_append.1 hc with hc | hc
  · exact h c hc
  · cases List.mem_singleton.1 hc

/-- The call of a live node is one of the calls that are meant. -/
theorem callsKeep_callsLive (p : PassGraph) (access : Leaf → Outcome String) :
    CallsKeep p access (Emission.CallsLive p) := by
  intro e e' id n hlive hn _ _ h he'
  rw [emitCall_eq_bind] at he'
  obtain ⟨arguments, -, heq⟩ := Except.bind_eq_ok_iff.1 he'
  cases heq
  intro c hc
  rcases List.mem_append.1 hc with hc | hc
  · rcases List.mem_append.1 hc with hc | hc
    · exact h c hc
    · obtain ⟨o, -, ho⟩ := List.mem_map.1 hc
      cases ho
  · cases List.mem_singleton.1 hc
    exact ⟨id, n, hlive, hn, rfl, rfl⟩

/-- Every call in the body of a pass is that of a live node. -/
theorem calls_of_ofPass {body : Body} (h : ofPass p access = .ok body) :
    ∀ c, .call c ∈ body → p.Calls c := by
  obtain ⟨e, he, rfl, -⟩ := ofPass_keeps (callsKeep_callsLive p access)
    (fun e field value _ he => he.assign field value) (fun c hc => absurd hc List.not_mem_nil) h
  exact he

end Body

end MaterialGraph
