import Mathlib.Logic.Function.Basic
import MaterialGraph.Body.Emit

/-!
What a body does when its statements run in order. Functions and leaf texts are
given by an interpretation; a call shows its function nothing but how it is
written and the values of its input arguments. A run fails where a statement
reads a temporary without a value, declares one twice or writes an undeclared one.
-/

namespace MaterialGraph

def Argument.input? : Argument → Option Operand
  | .input value => some value
  | .output _ => none

def Argument.output? : Argument → Option Nat
  | .input _ => none
  | .output n => some n

/-- The parts of the result that are assigned together or apart. -/
inductive Part
  | xyz | w | depth
deriving DecidableEq, Inhabited

/-- An assignment to the whole color reaches its fourth component as well. -/
def Field.covers : Field → Part → Bool
  | .color, .xyz | .color, .w | .colorXyz, .xyz | .colorW, .w | .depth, .depth => true
  | _, _ => false

namespace Body

/-- How a call is written, up to the arguments themselves. -/
structure Signature where
  function : String
  own : Bool
  returns : Bool
  /-- In the order of the arguments, whether each takes a value out. -/
  outs : List Bool
deriving DecidableEq, Inhabited

/-- What a call gives back: the returned value and those of its out-arguments. -/
structure Results (V : Type*) where
  returned : V
  out : Nat → V

structure Interpretation (V : Type*) where
  call : Signature → List V → Results V
  text : String → V

inductive Cell (V : Type*)
  | undeclared
  | declared
  | holding (value : V)

/-- The temporaries, and the assignments to fields of the result so far. -/
structure State (V : Type*) where
  cells : Nat → Cell V
  written : List (Field × V)

def Signature.ofCall (c : Call) : Signature :=
  ⟨c.function, c.own, c.result.isSome, c.arguments.map fun a => a.2.output?.isSome⟩

variable {V : Type*}

namespace State

def initial : State V :=
  ⟨fun _ => .undeclared, []⟩

def declare? (s : State V) (n : Nat) : Option (State V) :=
  match s.cells n with
  | .undeclared => some { s with cells := Function.update s.cells n .declared }
  | _ => none

def store? (s : State V) (n : Nat) (v : V) : Option (State V) :=
  match s.cells n with
  | .undeclared => none
  | _ => some { s with cells := Function.update s.cells n (.holding v) }

/-- Stores the values that the out-arguments take, from the first to the last. -/
def storeOuts? (s : State V) (out : Nat → V) (k : Nat) : List Nat → Option (State V)
  | [] => some s
  | n :: rest => (s.store? n (out k)).bind fun s => storeOuts? s out (k + 1) rest

def operand? (I : Interpretation V) (s : State V) : Operand → Option V
  | .text t => some (I.text t)
  | .temp n =>
    match s.cells n with
    | .holding v => some v
    | _ => none

def operands? (I : Interpretation V) (s : State V) : List Operand → Option (List V)
  | [] => some []
  | o :: rest => (s.operand? I o).bind fun v => (s.operands? I rest).map (v :: ·)

def call? (I : Interpretation V) (s : State V) (c : Call) : Option (State V) := do
  let values ← s.operands? I (c.arguments.filterMap fun a => a.2.input?)
  let results := I.call (.ofCall c) values
  let s ← c.result.elim (some s) fun n => s.store? n results.returned
  s.storeOuts? results.out 0 (c.arguments.filterMap fun a => a.2.output?)

def step? (I : Interpretation V) (s : State V) : Statement → Option (State V)
  | .declare _ n => s.declare? n
  | .call c => s.call? I c
  | .assign field value =>
    (s.operand? I value).map fun v => { s with written := s.written ++ [(field, v)] }

def run? (I : Interpretation V) (s : State V) : Body → Option (State V)
  | [] => some s
  | statement :: rest => (s.step? I statement).bind fun s => run? I s rest

/-- The value last assigned to a field that covers a part of the result. -/
def result? (s : State V) (part : Part) : Option V :=
  ((s.written.filter fun w => w.1.covers part).getLast?).map (·.2)

variable {I : Interpretation V} {s : State V} {n : Nat}

theorem run?_append (I : Interpretation V) (s : State V) (a b : Body) :
    s.run? I (a ++ b) = (s.run? I a).bind fun s => s.run? I b := by
  induction a generalizing s with
  | nil => rfl
  | cons statement rest ih =>
    simp only [List.cons_append, run?]
    cases s.step? I statement with
    | none => rfl
    | some s => exact ih s

/-- A state that keeps what the temporaries hold keeps the values of operands. -/
theorem operand?_mono {s' : State V} (h : ∀ m v, s.cells m = .holding v → s'.cells m = .holding v)
    {o : Operand} {v : V} (ho : s.operand? I o = some v) : s'.operand? I o = some v := by
  cases o with
  | text t => exact ho
  | temp m =>
    simp only [operand?] at ho ⊢
    cases hm : s.cells m with
    | undeclared => simp [hm] at ho
    | declared => simp [hm] at ho
    | holding w => simpa only [hm, h m w hm] using ho

/-- Declaring temporaries in a row, all of them undeclared before. -/
theorem run?_declarations {α : Type*} (I : Interpretation V) (type : α → BasicType)
    (declared : List (α × Nat)) : ∀ s : State V, (declared.map Prod.snd).Nodup →
      (∀ m ∈ declared.map Prod.snd, s.cells m = .undeclared) →
      ∃ s', s.run? I (declared.map fun d => .declare (type d.1) d.2) = some s' ∧
        s'.written = s.written ∧
        ∀ m, s'.cells m = if m ∈ declared.map Prod.snd then .declared else s.cells m := by
  induction declared with
  | nil => exact fun s _ _ => ⟨s, rfl, rfl, fun m => by simp⟩
  | cons d rest ih =>
    intro s hnodup hfresh
    rw [List.map_cons] at hnodup hfresh
    obtain ⟨hd, hrest⟩ := List.nodup_cons.1 hnodup
    have hcell : s.cells d.2 = .undeclared := hfresh d.2 List.mem_cons_self
    have hfresh' : ∀ m ∈ rest.map Prod.snd,
        Function.update s.cells d.2 .declared m = .undeclared := by
      intro m hm
      rw [Function.update_of_ne fun heq : m = d.2 => hd (heq ▸ hm)]
      exact hfresh m (List.mem_cons_of_mem _ hm)
    obtain ⟨s', hrun, hwritten, hcells⟩ :=
      ih { s with cells := Function.update s.cells d.2 .declared } hrest hfresh'
    refine ⟨s', ?_, hwritten, fun m => ?_⟩
    · simpa only [List.map_cons, run?, step?, declare?, hcell, Option.bind_some] using hrun
    · rw [hcells, List.map_cons]
      by_cases hm : m = d.2
      · subst hm
        simp [hd]
      · simp only [Function.update_of_ne hm, List.mem_cons, hm, false_or]

theorem store?_of_ne (v : V) (h : s.cells n ≠ .undeclared) :
    s.store? n v = some { s with cells := Function.update s.cells n (.holding v) } := by
  unfold store?
  cases hn : s.cells n with
  | undeclared => exact absurd hn h
  | declared => rfl
  | holding w => rfl

/-- A returned value is kept by the temporary that takes it, if there is one. -/
theorem storeResult (s : State V) (result : Option Nat) (v : V)
    (hdeclared : ∀ m, result = some m → s.cells m ≠ .undeclared) :
    ∃ s', (result.elim (some s) fun n => s.store? n v) = some s' ∧ s'.written = s.written ∧
      (∀ m, result = some m → s'.cells m = .holding v) ∧
      ∀ m, result ≠ some m → s'.cells m = s.cells m := by
  cases result with
  | none => exact ⟨s, rfl, rfl, fun m hm => (Option.some_ne_none m hm.symm).elim, fun m _ => rfl⟩
  | some n =>
    refine ⟨_, store?_of_ne v (hdeclared n rfl), rfl, fun m hm => ?_, fun m hm => ?_⟩
    · cases hm
      exact Function.update_self ..
    · exact Function.update_of_ne (fun heq : m = n => hm (congrArg some heq.symm)) ..

/-- Out-arguments that are pairwise distinct keep the values given for them. -/
theorem storeOuts?_of_nodup (out : Nat → V) (temps : List Nat) :
    ∀ (s : State V) (k : Nat), temps.Nodup → (∀ m ∈ temps, s.cells m ≠ .undeclared) →
      ∃ s', s.storeOuts? out k temps = some s' ∧ s'.written = s.written ∧
        (∀ j m, temps[j]? = some m → s'.cells m = .holding (out (k + j))) ∧
        ∀ m, m ∉ temps → s'.cells m = s.cells m := by
  induction temps with
  | nil => exact fun s k _ _ => ⟨s, rfl, rfl, fun j m hm => by simp at hm, fun m _ => rfl⟩
  | cons n rest ih =>
    intro s k hnodup hdeclared
    obtain ⟨hn, hrest⟩ := List.nodup_cons.1 hnodup
    have hdeclared' : ∀ m ∈ rest,
        Function.update s.cells n (.holding (out k)) m ≠ .undeclared := by
      intro m hm
      rw [Function.update_of_ne fun heq : m = n => hn (heq ▸ hm)]
      exact hdeclared m (List.mem_cons_of_mem _ hm)
    obtain ⟨s', hrun, hwritten, hheld, hframe⟩ :=
      ih { s with cells := Function.update s.cells n (.holding (out k)) } (k + 1) hrest hdeclared'
    refine ⟨s', ?_, hwritten, fun j m hm => ?_, fun m hm => ?_⟩
    · rw [storeOuts?, store?_of_ne _ (hdeclared n List.mem_cons_self), Option.bind_some, hrun]
    · cases j with
      | zero =>
        obtain rfl : n = m := by simpa using hm
        rw [hframe n hn]
        exact Function.update_self ..
      | succ j =>
        have hm' : rest[j]? = some m := by simpa using hm
        rw [hheld j m hm', Nat.add_assoc, Nat.add_comm 1 j]
    · rw [List.mem_cons, not_or] at hm
      rw [hframe m hm.2]
      exact Function.update_of_ne hm.1 ..

end State

end Body

end MaterialGraph
