import MaterialGraph.Proofs.Body.Arguments
import MaterialGraph.Proofs.Body.Execution
import MaterialGraph.Proofs.Graph.Wiring

/-!
The value of a binding, by recursion along the wires. A node passes the values
of its inputs to the function of its type in the order of their registers, and
takes from it the returned value and, in the same order, its other outputs.
-/

namespace MaterialGraph.Body

variable {V : Type*}

/-- The outputs that a call takes out of its arguments. -/
def outPins (t : NodeType) : List Pin :=
  t.outputs.filter fun p => p.register != returnRegister

/-- How a call of the function of a type is written. -/
def Signature.ofType (t : NodeType) : Signature where
  function := t.function
  own := t.aliasName.isNone
  returns := t.outputs.any fun p => p.register == returnRegister
  outs := (byRegister (t.inputs.map (fun p => (p.register, false)) ++
    (outPins t).map fun p => (p.register, true))).map (·.2)

/-- The values of the inputs of a type in the order of their registers. -/
def inRegisterOrder (t : NodeType) (values : List V) : List V :=
  (byRegister ((t.inputs.map Pin.register).zip values)).map (·.2)

/-- The value of an output for given values of the inputs. An output that is not
returned is found by the number of those with smaller registers. -/
def Interpretation.output (I : Interpretation V) (t : NodeType) (values : List V) (p : Pin) : V :=
  let results := I.call (.ofType t) (inRegisterOrder t values)
  if p.register = returnRegister then results.returned
  else results.out ((outPins t).countP fun q => q.register < p.register)

inductive Evaluates (g : Graph) (access : Leaf → Outcome String) (I : Interpretation V) :
    Binding → V → Prop
  | leaf {l : Leaf} {t : String} (ht : access l = .ok t) : Evaluates g access I (.leaf l) (I.text t)
  | output {ref : OutputRef} {n : Node} {pin : Pin} {values : List V}
      (hn : g.node? ref.node = some n) (hpin : n.type.outputs[ref.output]? = some pin)
      (hlength : values.length = n.inputs.length)
      (hvalues : ∀ (k : Nat) b v, n.inputs[k]? = some b → values[k]? = some v →
        Evaluates g access I b v) :
      Evaluates g access I (.output ref) (I.output n.type values pin)

/-- A binding has at most one value. -/
theorem Evaluates.unique {g : Graph} {access : Leaf → Outcome String} {I : Interpretation V}
    {b : Binding} {v w : V} (hv : Evaluates g access I b v) (hw : Evaluates g access I b w) :
    v = w := by
  induction hv generalizing w with
  | leaf ht =>
    cases hw with
    | leaf ht' =>
      rw [ht] at ht'
      cases ht'
      rfl
  | @output ref n pin values hn hpin hlength hvalues ih =>
    cases hw with
    | @output _ n' pin' values' hn' hpin' hlength' hvalues' =>
      obtain rfl : n = n' := Option.some.inj (hn.symm.trans hn')
      obtain rfl : pin = pin' := Option.some.inj (hpin.symm.trans hpin')
      have heq : values = values' := by
        refine List.ext_getElem (hlength.trans hlength'.symm) fun k hk hk' => ?_
        have hinput : k < n.inputs.length := hlength ▸ hk
        exact ih k n.inputs[k] values[k] (List.getElem?_eq_getElem hinput)
          (List.getElem?_eq_getElem hk)
          (hvalues' k n.inputs[k] values'[k] (List.getElem?_eq_getElem hinput)
            (List.getElem?_eq_getElem hk'))
      rw [heq]

end MaterialGraph.Body
